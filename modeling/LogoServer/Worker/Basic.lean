import LogoServer.Log
import LogoServer.Worker.Request

/-! Workers: each owns one document and runs the tasks for it one at a time, in the order in which
they were handed in. -/
namespace LogoServer

/-- A task that was accepted, with the number under which its answer is called for. -/
structure Job where
  ticket : Nat
  request : Request
  deriving DecidableEq, Repr

inductive Stage where
  | idle
  /-- Took a job and has not yet looked whether to stop. -/
  | taken (job : Job)
  | busy (job : Job)
  | exited
  deriving DecidableEq, Repr

structure Worker where
  number : Nat
  document : Document
  running : Bool := true
  accepting : Bool := true
  /-- Someone waited for the worker to exit. -/
  joined : Bool := false
  /-- Number of jobs accepted, which is the next ticket. -/
  accepted : Nat := 0
  /-- Jobs not yet taken, oldest first. -/
  queue : List Job := []
  stage : Stage := .idle
  /-- Jobs that ran and how they ended, newest first. -/
  history : List (Job × Ending) := []

namespace Worker

def start (number : Nat) (uri : String) : Worker :=
  { number, document := { uri } }

def uri (w : Worker) : String :=
  w.document.uri

def admits (w : Worker) : Bool :=
  w.running && w.accepting

/-- Puts a task at the end of the queue; answers its ticket unless nobody is there to take it. -/
def enqueue (w : Worker) (request : Request) : Except AnalysisError (Nat × Worker) :=
  if w.stage = .exited then
    .error ⟨.shutDown, w.uri⟩
  else
    .ok (w.accepted,
      { w with accepted := w.accepted + 1, queue := w.queue ++ [⟨w.accepted, request⟩] })

/-- Hands in a task; answers its ticket unless the worker was told to stop. -/
def submit (w : Worker) (request : Request) : Except AnalysisError (Nat × Worker) :=
  if w.admits then w.enqueue request else .error ⟨.shutDown, w.uri⟩

/-- First half of a shutdown: the worker is told to stop. -/
def tellToStop (w : Worker) : Worker :=
  { w with running := false }

/-- Second half of a shutdown: nothing more enters the queue, which wakes an idle worker. -/
def closeQueue (w : Worker) : Worker :=
  { w with accepting := false }

def shutdown (w : Worker) : Worker :=
  w.tellToStop.closeQueue

/-- One step of the worker itself: take a job, look whether to stop, or run the job to its end. -/
def step (w : Worker) : Worker :=
  match w.stage with
  | .idle =>
    match w.queue with
    | job :: queue => { w with queue, stage := .taken job }
    -- Jobs handed in before the queue was closed are still taken.
    | [] => if w.accepting then w else { w with stage := .exited }
  | .taken job =>
    -- One that was told to stop drops the job at hand and all behind it.
    if w.running then { w with stage := .busy job } else { w with queue := [], stage := .exited }
  | .busy job =>
    let (ending, document) := job.request.perform w.number w.document
    { w with document, stage := .idle, history := (job, ending) :: w.history }
  | .exited => w

def steps : Nat → Worker → Worker
  | 0, w => w
  | n + 1, w => steps n w.step

/-- Lets the worker go on until it waits or has exited. A job takes three steps, and two more end
the job at hand and the worker. -/
def settle (w : Worker) : Worker :=
  steps (3 * w.queue.length + 3) w

/-- What became of the job with the given ticket; nothing yet, as long as it may still run. -/
def outcome? (w : Worker) (ticket : Nat) : Option (Except AnalysisError Reply) :=
  match w.history.find? (·.1.ticket == ticket) with
  | some (_, .returned result) => some result
  | some (_, .panicked _) => some (.error ⟨.taskFailed, w.uri⟩)
  | none => if w.stage = .exited then some (.error ⟨.taskFailed, w.uri⟩) else none

/-- What became of a job after the worker settled. -/
def result (w : Worker) (ticket : Nat) : Except AnalysisError Reply :=
  (w.outcome? ticket).getD (.error ⟨.taskFailed, w.uri⟩)

def ask (w : Worker) (request : Request) : Except AnalysisError Reply × Worker :=
  match w.submit request with
  | .error e => (.error e, w)
  | .ok (ticket, w) =>
    let w := w.settle
    (w.result ticket, w)

/-- Keeps an idle worker busy. -/
def hold (w : Worker) : Except AnalysisError Unit × Worker :=
  match w.submit .pause with
  | .error e => (.error e, w)
  -- Two steps take the job up; a third would end it.
  | .ok (_, w) => (.ok (), w.step.step)

/-- Lets a busy worker go on; answers the jobs that were waiting. -/
def release (w : Worker) : List (Except AnalysisError Reply) × Worker :=
  let tickets := w.queue.map Job.ticket
  let w := w.settle
  (tickets.map w.result, w)

def isBusy (w : Worker) : Bool :=
  match w.stage with
  | .busy _ => true
  | _ => false

def join (w : Worker) : Worker :=
  let w := w.settle
  { w with joined := w.stage == .exited }

/-- The worker has exited. Between the word to stop and the end of a `join` it may or may not
have. -/
def terminated? (w : Worker) : Option Bool :=
  if w.joined then some true else if w.running then some false else none

/-- Entries of the log, oldest first: one for each task that broke off. -/
def log (w : Worker) : List LogEntry :=
  w.history.reverse.filterMap fun (_, ending) =>
    match ending with
    | .panicked payload => some (.taskPanicked w.uri payload.message)
    | .returned _ => none

end Worker

end LogoServer
