import LogoServer.Worker.Basic
import Mathlib.Tactic

/-! What a worker that was not told to stop will come to, however its steps fall: nothing it does by
itself changes the document and the endings that its jobs lead to. -/
namespace LogoServer

theorem Request.uri_perform (number : Nat) (document : Document) (request : Request) :
    (request.perform number document).2.uri = document.uri := by
  cases request with
  | query q => cases q <;> rfl
  | _ => rfl

namespace Worker

/-- The worker takes tasks and runs them. -/
structure Serving (w : Worker) : Prop where
  running : w.running = true
  accepting : w.accepting = true
  stage : w.stage ≠ .exited

theorem serving_start (number : Nat) (uri : String) : (start number uri).Serving :=
  ⟨rfl, rfl, by simp [start]⟩

/-- The jobs that have not ended, oldest first. -/
def jobs (w : Worker) : List Job :=
  match w.stage with
  | .taken job | .busy job => job :: w.queue
  | .idle | .exited => w.queue

/-- A document and the endings so far, newest first, after one more job. -/
def after (number : Nat) (past : Document × List (Job × Ending)) (job : Job) :
    Document × List (Job × Ending) :=
  let (ending, document) := job.request.perform number past.1
  (document, (job, ending) :: past.2)

/-- The document and the endings that the jobs at hand lead to. -/
def foreseen (w : Worker) : Document × List (Job × Ending) :=
  w.jobs.foldl (after w.number) (w.document, w.history)

theorem uri_foldl_after (number : Nat) (jobs : List Job) (past : Document × List (Job × Ending)) :
    (jobs.foldl (after number) past).1.uri = past.1.uri := by
  induction jobs generalizing past with
  | nil => rfl
  | cons job jobs ih =>
    rw [List.foldl_cons, ih]
    exact Request.uri_perform number past.1 job.request

theorem uri_foreseen (w : Worker) : w.foreseen.1.uri = w.uri :=
  uri_foldl_after w.number w.jobs (w.document, w.history)

/-- Steps that the worker takes before it waits. -/
def labour (w : Worker) : Nat :=
  3 * w.queue.length +
    match w.stage with
    | .taken _ => 2
    | .busy _ => 1
    | .idle | .exited => 0

variable {w : Worker}

/-- What one step of a serving worker can be. -/
theorem step_cases (hw : w.Serving) :
    (w.stage = .idle ∧ w.queue = [] ∧ w.step = w) ∨
    (∃ job queue, w.stage = .idle ∧ w.queue = job :: queue ∧
      w.step = { w with queue, stage := .taken job }) ∨
    (∃ job, w.stage = .taken job ∧ w.step = { w with stage := .busy job }) ∨
    (∃ job, w.stage = .busy job ∧ w.step =
      { w with
        document := (job.request.perform w.number w.document).2
        stage := .idle
        history := (job, (job.request.perform w.number w.document).1) :: w.history }) := by
  unfold step
  cases hstage : w.stage with
  | idle =>
    cases hqueue : w.queue with
    | nil => exact .inl ⟨rfl, rfl, by simp [hw.accepting]⟩
    | cons job queue => exact .inr (.inl ⟨job, queue, rfl, rfl, rfl⟩)
  | taken job => exact .inr (.inr (.inl ⟨job, rfl, by simp [hw.running]⟩))
  | busy job => exact .inr (.inr (.inr ⟨job, rfl, rfl⟩))
  | exited => exact absurd hstage hw.stage

theorem Serving.step (hw : w.Serving) : w.step.Serving := by
  rcases step_cases hw with ⟨_, _, h⟩ | ⟨_, _, _, _, h⟩ | ⟨_, _, h⟩ | ⟨_, _, h⟩
  · rwa [h]
  all_goals
    rw [h]
    exact ⟨hw.running, hw.accepting, by simp⟩

theorem foreseen_step (hw : w.Serving) : w.step.foreseen = w.foreseen := by
  rcases step_cases hw with ⟨_, _, h⟩ | ⟨job, queue, hstage, hqueue, h⟩ | ⟨job, hstage, h⟩ |
    ⟨job, hstage, h⟩
  · rw [h]
  · simp [h, foreseen, jobs, hstage, hqueue]
  · simp [h, foreseen, jobs, hstage]
  · simp [h, foreseen, jobs, hstage, after]

theorem labour_step (hw : w.Serving) : w.step.labour = w.labour - 1 := by
  rcases step_cases hw with ⟨hstage, hqueue, h⟩ | ⟨job, queue, hstage, hqueue, h⟩ |
    ⟨job, hstage, h⟩ | ⟨job, hstage, h⟩
  · simp [h, labour, hstage, hqueue]
  · simp [h, labour, hstage, hqueue]
    omega
  · simp [h, labour, hstage]
  · simp [h, labour, hstage]

/-- A run of steps keeps what is foreseen and uses up the labour. -/
theorem steps_spec (n : Nat) (hw : w.Serving) :
    (steps n w).Serving ∧ (steps n w).foreseen = w.foreseen ∧
      (steps n w).labour = w.labour - n := by
  induction n generalizing w with
  | zero => exact ⟨hw, rfl, rfl⟩
  | succ n ih =>
    obtain ⟨hserving, hforeseen, hlabour⟩ := ih hw.step
    refine ⟨hserving, hforeseen.trans (foreseen_step hw), ?_⟩
    rw [steps, hlabour, labour_step hw]
    omega

theorem Serving.settle (hw : w.Serving) : w.settle.Serving :=
  (steps_spec _ hw).1

theorem foreseen_settle (hw : w.Serving) : w.settle.foreseen = w.foreseen :=
  (steps_spec _ hw).2.1

theorem labour_le (w : Worker) : w.labour ≤ 3 * w.queue.length + 3 := by
  unfold labour
  split <;> omega

theorem jobs_eq_nil_of_labour (h : w.labour = 0) : w.jobs = [] := by
  unfold labour at h
  have hqueue : w.queue = [] := List.length_eq_zero_iff.mp (by omega)
  unfold jobs
  split at h
  · omega
  · omega
  · simp_all
  · simp_all

/-- A worker that settled has nothing left to do, so what was foreseen has come. -/
theorem settled (hw : w.Serving) : (w.settle.document, w.settle.history) = w.foreseen := by
  have hspent := (steps_spec (3 * w.queue.length + 3) hw).2.2
  have hlabour : w.settle.labour = 0 := by
    have hle := w.labour_le
    unfold Worker.settle
    omega
  rw [← foreseen_settle hw, foreseen, jobs_eq_nil_of_labour hlabour]
  rfl

/-- The worker with one more task in its queue. -/
def submitted (w : Worker) (request : Request) : Worker :=
  { w with accepted := w.accepted + 1, queue := w.queue ++ [⟨w.accepted, request⟩] }

theorem jobs_submitted (w : Worker) (request : Request) :
    (w.submitted request).jobs = w.jobs ++ [⟨w.accepted, request⟩] := by
  unfold jobs submitted
  cases w.stage <;> rfl

/-- A task handed in is the last to be run. -/
theorem foreseen_submitted (w : Worker) (request : Request) :
    (w.submitted request).foreseen = after w.number w.foreseen ⟨w.accepted, request⟩ := by
  rw [foreseen, jobs_submitted, List.foldl_append]
  rfl

theorem submit_spec (hw : w.Serving) (request : Request) :
    ∃ w', w.submit request = .ok (w.accepted, w') ∧ w'.Serving ∧
      w'.foreseen = after w.number w.foreseen ⟨w.accepted, request⟩ := by
  have hadmits : w.admits = true := by simp [admits, hw.running, hw.accepting]
  have hsubmit : w.submit request = .ok (w.accepted, w.submitted request) := by
    simp [submit, hadmits, enqueue, hw.stage, submitted]
  exact ⟨w.submitted request, hsubmit, ⟨hw.running, hw.accepting, hw.stage⟩,
    foreseen_submitted w request⟩

/-- The answer to a task handed in is what the task makes of the document foreseen. -/
theorem result_settle {request : Request} {result : Except AnalysisError Reply} {w' : Worker}
    {ticket : Nat} (hw' : w'.Serving)
    (hforeseen : w'.foreseen = after w.number w.foreseen ⟨ticket, request⟩)
    (hresult : (request.perform w.number w.foreseen.1).1 = .returned result) :
    w'.settle.result ticket = result := by
  have hhistory : w'.settle.history = (⟨ticket, request⟩, .returned result) :: w.foreseen.2 := by
    have hsettled := settled hw'
    rw [hforeseen, after] at hsettled
    rw [← hresult]
    exact congrArg Prod.snd hsettled
  simp [Worker.result, outcome?, hhistory]

end Worker

end LogoServer
