import LogoServer.Worker.Basic
import Std.Data.TreeMap

/-! The workers of all documents. A closed document keeps its worker for a while, in case it is
opened again. -/
namespace LogoServer

/-- When the worker of a closed document is stopped. -/
structure Deadline where
  due : Nat
  /-- Tells deadlines of one instant apart; one set later is greater. -/
  sequence : Nat
  deriving DecidableEq, Repr

def Deadline.before (a b : Deadline) : Bool :=
  a.due < b.due || (a.due == b.due && a.sequence < b.sequence)

/-- The worker of a closed document. -/
structure Parked where
  worker : Nat
  deadline : Deadline
  deriving DecidableEq, Repr

structure Registry where
  /-- Time from closing a document to stopping its worker. -/
  delay : Nat
  /-- Why no worker can be started for a document, if so. -/
  startFailure : String → Option String := fun _ => none
  /-- Every worker ever started, by number. -/
  workers : Array Worker := #[]
  live : Std.TreeMap String Nat := ∅
  parked : Std.TreeMap String Parked := ∅
  /-- Closed documents in the order of their deadlines. -/
  deadlines : List (Deadline × String) := []
  nextSequence : Nat := 0
  created : Nat := 0
  recycled : Nat := 0
  evicted : Nat := 0

namespace Registry

/-- Five minutes, in milliseconds. -/
def defaultDelay : Nat := 5 * 60 * 1000

def schedule (deadline : Deadline) (uri : String) :
    List (Deadline × String) → List (Deadline × String)
  | [] => [(deadline, uri)]
  | first :: rest =>
    if deadline.before first.1 then (deadline, uri) :: first :: rest
    else first :: schedule deadline uri rest

def update (r : Registry) (worker : Nat) (change : Worker → Worker) : Registry :=
  { r with workers := r.workers.modify worker change }

def evict (r : Registry) (uri : String) : Registry :=
  match r.parked[uri]? with
  | none => r
  | some entry =>
    { r.update entry.worker Worker.shutdown with
      parked := r.parked.erase uri
      evicted := r.evicted + 1 }

/-- Evicts the documents whose deadlines have passed; one that is due now has. -/
def cleanUp (r : Registry) (now : Nat) : Registry :=
  let passed (d : Deadline × String) : Bool := d.1.due ≤ now
  ((r.deadlines.takeWhile passed).map Prod.snd).foldl evict
    { r with deadlines := r.deadlines.dropWhile passed }

/-- The worker of a document that is opened: the one it has, the one it had, or a new one. -/
def acquire (r : Registry) (now : Nat) (uri : String) : Except String Nat × Registry :=
  let r := r.cleanUp now
  match r.live[uri]?, r.parked[uri]? with
  | some worker, _ => (.ok worker, r)
  | none, some entry =>
    (.ok entry.worker,
      { r with
        parked := r.parked.erase uri
        deadlines := r.deadlines.filter fun d => d.1 ≠ entry.deadline
        live := r.live.insert uri entry.worker
        recycled := r.recycled + 1 })
  | none, none =>
    match r.startFailure uri with
    | some cause => (.error cause, r)
    | none =>
      let worker := r.workers.size
      (.ok worker,
        { r with
          workers := r.workers.push (.start worker uri)
          live := r.live.insert uri worker
          created := r.created + 1 })

/-- The worker a document has, open or closed. Nothing is started and nothing reopened. -/
def find (r : Registry) (now : Nat) (uri : String) : Option Nat × Registry :=
  let r := r.cleanUp now
  (r.live[uri]?.or (r.parked[uri]?.map Parked.worker), r)

/-- Keeps the worker of an open document for the time being; answers whether the document was
open. -/
def park (r : Registry) (now : Nat) (uri : String) : Bool × Registry :=
  match r.live[uri]? with
  | none => (false, r)
  | some worker =>
    let deadline : Deadline := ⟨now + r.delay, r.nextSequence⟩
    (true,
      { r with
        live := r.live.erase uri
        parked := r.parked.insert uri ⟨worker, deadline⟩
        deadlines := schedule deadline uri r.deadlines
        nextSequence := r.nextSequence + 1 })

def close (r : Registry) (now : Nat) (uri : String) : Bool × Registry :=
  (r.cleanUp now).park now uri

def shutdownAll (r : Registry) : Registry :=
  let stored := r.live.values ++ r.parked.values.map Parked.worker
  { stored.foldl (fun r worker => r.update worker Worker.shutdown) r with
    live := ∅
    parked := ∅
    deadlines := [] }

/-- Hands in a task to a worker; one that was never started counts as stopped. -/
def submit (r : Registry) (worker : Nat) (uri : String) (request : Request) :
    Except AnalysisError (Nat × Registry) :=
  match r.workers[worker]? with
  | none => .error ⟨.shutDown, uri⟩
  | some w => do
    let (ticket, w) ← w.submit request
    return (ticket, r.update worker fun _ => w)

def await (r : Registry) (worker : Nat) (uri : String) (ticket : Nat) :
    Except AnalysisError Reply × Registry :=
  match r.workers[worker]? with
  | none => (.error ⟨.taskFailed, uri⟩, r)
  | some w =>
    let w := w.settle
    (w.result ticket, r.update worker fun _ => w)

end Registry

structure Statistics where
  created : Nat
  recycled : Nat
  evicted : Nat
  live : Nat
  parked : Nat
  deriving DecidableEq, Repr

def Registry.statistics (r : Registry) : Statistics :=
  ⟨r.created, r.recycled, r.evicted, r.live.size, r.parked.size⟩

end LogoServer
