import LogoServer.Proofs.Worker.Moves
import Mathlib.Tactic

/-! A worker among those who hand in tasks and those who shut it down, in any order of their doings.
What is accepted is run in the order in which it was accepted, or dropped when the worker exits; in
any case it is answered, and answered once. -/
namespace LogoServer.Worker

/-- What happens to a worker. Handing in a task takes two moves, behind a lock that one caller has
at a time: to look whether tasks are taken, and to put the task into the queue. Shutting down takes
two moves as well, of which the second needs the lock. -/
inductive Move where
  | knock (request : Request)
  | enter
  | tellToStop
  | closeQueue
  | step
  deriving DecidableEq, Repr

/-- A worker and its callers. -/
structure Reception where
  worker : Worker
  /-- The task of the caller who has the lock. -/
  entering : Option Request := none
  /-- Jobs that were accepted, oldest first. -/
  accepted : List Job := []

namespace Reception

/-- One move; a caller who needs the lock and cannot have it waits. -/
def act (c : Reception) : Move → Reception
  | .knock request =>
    if c.entering.isNone && c.worker.admits then { c with entering := some request } else c
  | .enter =>
    match c.entering with
    | none => c
    | some request =>
      match c.worker.enqueue request with
      | .ok (ticket, worker) => { worker, accepted := c.accepted ++ [⟨ticket, request⟩] }
      | .error _ => { c with entering := none }
  | .tellToStop => { c with worker := c.worker.tellToStop }
  | .closeQueue => if c.entering.isNone then { c with worker := c.worker.closeQueue } else c
  | .step => { c with worker := c.worker.step }

def run (c : Reception) (moves : List Move) : Reception :=
  moves.foldl act c

/-- A new worker to which no task was handed in. -/
def new (number : Nat) (uri : String) : Reception :=
  { worker := .start number uri }

end Reception

/-- Jobs that ran, oldest first. -/
def ran (w : Worker) : List Job :=
  w.history.reverse.map Prod.fst

end LogoServer.Worker

namespace LogoServer

/-- What the one who handed in a task is told of its ending. -/
def Ending.resolution (uri : String) : Ending → Except AnalysisError Reply
  | .returned result => result
  | .panicked _ => .error ⟨.taskFailed, uri⟩

namespace Worker

variable {w : Worker} {uri : String} {number : Nat}

/-- What one step of any worker can be: it waits or has exited, takes a job, begins it, ends it, or
exits. -/
theorem step_forms (w : Worker) :
    (w.step = w ∧ (w.stage = .exited ∨ w.stage = .idle ∧ w.queue = [])) ∨
    (∃ job queue, w.stage = .idle ∧ w.queue = job :: queue ∧
      w.step = { w with queue, stage := .taken job }) ∨
    (∃ job, w.stage = .taken job ∧ w.running = true ∧ w.step = { w with stage := .busy job }) ∨
    (∃ job, w.stage = .busy job ∧ w.step =
      { w with
        document := (job.request.perform w.number w.document).2
        stage := .idle
        history := (job, (job.request.perform w.number w.document).1) :: w.history }) ∨
    (w.stage ≠ .exited ∧ (∀ job, w.stage ≠ .busy job) ∧
      w.step = { w with queue := [], stage := .exited }) := by
  unfold step
  cases hstage : w.stage with
  | idle =>
    cases hqueue : w.queue with
    | cons job queue => exact .inr (.inl ⟨job, queue, rfl, rfl, rfl⟩)
    | nil =>
      cases haccepting : w.accepting with
      | true => exact .inl ⟨by simp, .inr ⟨rfl, rfl⟩⟩
      | false =>
        refine .inr (.inr (.inr (.inr ⟨by simp, by simp, ?_⟩)))
        simp [← hqueue]
  | taken job =>
    cases hrunning : w.running with
    | true => exact .inr (.inr (.inl ⟨job, rfl, rfl, by simp⟩))
    | false => exact .inr (.inr (.inr (.inr ⟨by simp, by simp, by simp⟩)))
  | busy job => exact .inr (.inr (.inr (.inl ⟨job, rfl, rfl⟩)))
  | exited => exact .inl ⟨rfl, .inl rfl⟩

theorem enqueue_eq (w : Worker) (request : Request) :
    w.enqueue request =
      if w.stage = .exited then .error ⟨.shutDown, w.uri⟩
      else .ok (w.accepted, w.submitted request) := rfl

namespace Reception

/-- What holds of a worker and its callers at all times. -/
structure Orderly (number : Nat) (uri : String) (c : Reception) : Prop where
  number_eq : c.worker.number = number
  /-- The document and the endings come from the jobs that ran. -/
  past : (c.worker.document, c.worker.history) = c.worker.ran.foldl (after number) ({ uri }, [])
  order : c.worker.stage ≠ .exited → c.accepted = c.worker.ran ++ c.worker.jobs
  dropped : c.worker.stage = .exited → c.worker.queue = [] ∧ c.worker.ran <+: c.accepted
  tickets : c.accepted.map Job.ticket = List.range c.worker.accepted
  locked : c.worker.accepting = false → c.entering = none

variable {c : Reception}

theorem orderly_new (number : Nat) (uri : String) : (new number uri).Orderly number uri where
  number_eq := rfl
  past := rfl
  order := fun _ => rfl
  dropped := by simp [new, start]
  tickets := rfl
  locked := fun _ => rfl

namespace Orderly

theorem uri_eq (h : c.Orderly number uri) : c.worker.uri = uri := by
  have huri := uri_foldl_after number c.worker.ran ({ uri }, [])
  rw [← h.past] at huri
  exact huri

theorem enter (h : c.Orderly number uri) : (c.act .enter).Orderly number uri := by
  unfold act
  cases hentering : c.entering with
  | none => exact h
  | some request =>
    dsimp only
    rw [enqueue_eq]
    split_ifs with hexited
    · exact ⟨h.number_eq, h.past, h.order, h.dropped, h.tickets, fun _ => rfl⟩
    · refine ⟨h.number_eq, h.past, fun _ => ?_, fun hstage => absurd hstage hexited, ?_,
        fun _ => rfl⟩
      · rw [jobs_submitted, ← List.append_assoc, h.order hexited]
        rfl
      · simp [submitted, h.tickets, List.range_succ]

/-- The worker keeps to the order in each of its steps. -/
theorem step (h : c.Orderly number uri) : (c.act .step).Orderly number uri := by
  have hkeeps := step_keeps c.worker
  have htickets : c.accepted.map Job.ticket = List.range c.worker.step.accepted := by
    rw [hkeeps.2.2.1]
    exact h.tickets
  have hlocked : c.worker.step.accepting = false → c.entering = none := by
    rw [hkeeps.2.1]
    exact h.locked
  suffices hrest : c.worker.step.number = number ∧
      (c.worker.step.document, c.worker.step.history) =
        c.worker.step.ran.foldl (after number) ({ uri }, []) ∧
      (c.worker.step.stage ≠ .exited → c.accepted = c.worker.step.ran ++ c.worker.step.jobs) ∧
      (c.worker.step.stage = .exited →
        c.worker.step.queue = [] ∧ c.worker.step.ran <+: c.accepted) by
    obtain ⟨hnumber, hpast, horder, hdropped⟩ := hrest
    exact ⟨hnumber, hpast, horder, hdropped, htickets, hlocked⟩
  rcases step_forms c.worker with ⟨hstep, _⟩ | ⟨job, queue, hstage, hqueue, hstep⟩ |
    ⟨job, hstage, _, hstep⟩ | ⟨job, hstage, hstep⟩ | ⟨hstage, hbusy, hstep⟩
  · rw [hstep]
    exact ⟨h.number_eq, h.past, h.order, h.dropped⟩
  · have horder := h.order (by simp [hstage])
    rw [hstep]
    refine ⟨h.number_eq, h.past, fun _ => ?_, by simp⟩
    rw [horder, jobs, hstage, hqueue]
    rfl
  · have horder := h.order (by simp [hstage])
    rw [hstep]
    refine ⟨h.number_eq, h.past, fun _ => ?_, by simp⟩
    rw [horder, jobs, hstage]
    rfl
  · have horder := h.order (by simp [hstage])
    have hran : c.worker.step.ran = c.worker.ran ++ [job] := by
      rw [hstep]
      simp [ran]
    have hpast := h.past
    refine ⟨by rw [hstep]; exact h.number_eq, ?_, fun _ => ?_, by simp [hstep]⟩
    · rw [hran, List.foldl_append, ← h.past, hstep, ← h.number_eq]
      rfl
    · rw [hran, horder, jobs, hstage, hstep, List.append_assoc]
      rfl
  · have horder := h.order hstage
    rw [hstep]
    refine ⟨h.number_eq, h.past, by simp, fun _ => ⟨rfl, ?_⟩⟩
    rw [horder]
    exact List.prefix_append _ _

theorem act (h : c.Orderly number uri) (m : Move) : (c.act m).Orderly number uri := by
  cases m with
  | knock request =>
    simp only [Reception.act]
    split_ifs with hfree
    · have hadmits : c.worker.accepting = true := by
        simp only [admits, Bool.and_eq_true] at hfree
        exact hfree.2.2
      refine ⟨h.number_eq, h.past, h.order, h.dropped, h.tickets, fun hclosed => ?_⟩
      rw [hadmits] at hclosed
      cases hclosed
    · exact h
  | enter => exact h.enter
  | tellToStop => exact ⟨h.number_eq, h.past, h.order, h.dropped, h.tickets, h.locked⟩
  | closeQueue =>
    simp only [Reception.act]
    split_ifs with hfree
    · exact ⟨h.number_eq, h.past, h.order, h.dropped, h.tickets, fun _ => by simpa using hfree⟩
    · exact h
  | step => exact h.step

theorem run (h : c.Orderly number uri) (moves : List Move) :
    (c.run moves).Orderly number uri := by
  induction moves generalizing c with
  | nil => exact h
  | cons m moves ih => exact ih (h.act m)

theorem ran_prefix (h : c.Orderly number uri) : c.worker.ran <+: c.accepted := by
  by_cases hexited : c.worker.stage = .exited
  · exact (h.dropped hexited).2
  · rw [h.order hexited]
    exact List.prefix_append _ _

theorem nodup_tickets (h : c.Orderly number uri) : (c.accepted.map Job.ticket).Nodup := by
  rw [h.tickets]
  exact List.nodup_range

theorem nodup_history (h : c.Orderly number uri) :
    (c.worker.history.map fun x => x.1.ticket).Nodup := by
  have hran : (c.worker.ran.map Job.ticket).Nodup :=
    h.nodup_tickets.sublist (h.ran_prefix.sublist.map _)
  rw [ran, List.map_map, List.map_reverse, List.nodup_reverse] at hran
  exact hran

end Orderly

end Reception

/-! ### What becomes of a job -/

theorem outcome?_of_mem (h : (w.history.map fun x => x.1.ticket).Nodup) {x : Job × Ending}
    (hx : x ∈ w.history) : w.outcome? x.1.ticket = some (x.2.resolution w.uri) := by
  have hfind : w.history.find? (·.1.ticket == x.1.ticket) = some x := by
    have hsome : (w.history.find? (·.1.ticket == x.1.ticket)).isSome = true := by
      rw [List.find?_isSome]
      exact ⟨x, hx, by simp⟩
    obtain ⟨y, hy⟩ := Option.isSome_iff_exists.mp hsome
    have hticket : y.1.ticket = x.1.ticket := by simpa using List.find?_some hy
    rw [hy, List.inj_on_of_nodup_map h (List.mem_of_find?_eq_some hy) hx hticket]
  unfold outcome?
  rw [hfind]
  cases hending : x.2 with
  | returned result =>
    obtain ⟨job, _⟩ := x
    cases hending
    rfl
  | panicked payload =>
    obtain ⟨job, _⟩ := x
    cases hending
    rfl

theorem outcome?_of_notMem {ticket : Nat} (h : ∀ x ∈ w.history, x.1.ticket ≠ ticket) :
    w.outcome? ticket =
      if w.stage = .exited then some (.error ⟨.taskFailed, w.uri⟩) else none := by
  have hfind : w.history.find? (·.1.ticket == ticket) = none := by
    simpa [List.find?_eq_none] using h
  unfold outcome?
  rw [hfind]

theorem mem_history_step {x : Job × Ending} (h : x ∈ w.history) : x ∈ w.step.history := by
  rcases step_forms w with ⟨hstep, _⟩ | ⟨_, _, _, _, hstep⟩ | ⟨_, _, _, hstep⟩ | ⟨_, _, hstep⟩ |
    ⟨_, _, hstep⟩
  all_goals rw [hstep]
  · exact h
  · exact h
  · exact h
  · exact List.mem_cons_of_mem _ h
  · exact h

theorem labour_step_le (h : w.stage = .exited → w.queue = []) : w.step.labour ≤ w.labour - 1 := by
  rcases step_forms w with ⟨hstep, hrests⟩ | ⟨job, queue, hstage, hqueue, hstep⟩ |
    ⟨job, hstage, _, hstep⟩ | ⟨job, hstage, hstep⟩ | ⟨_, _, hstep⟩
  · have hqueue : w.queue = [] := by
      rcases hrests with hexited | ⟨_, hqueue⟩
      · exact h hexited
      · exact hqueue
    rcases hrests with hstage | ⟨hstage, _⟩
    · simp [hstep, labour, hqueue, hstage]
    · simp [hstep, labour, hqueue, hstage]
  · simp [hstep, labour, hstage, hqueue]
    omega
  · simp [hstep, labour, hstage]
  · simp [hstep, labour, hstage]
  · simp [hstep, labour]

namespace Reception

variable {c : Reception}

theorem run_steps (n : Nat) (c : Reception) :
    c.run (List.replicate n .step) = { c with worker := steps n c.worker } := by
  induction n generalizing c with
  | zero => rfl
  | succ n ih =>
    rw [List.replicate_succ]
    exact ih (c.act .step)

namespace Orderly

/-- An answer that was given stays as it is. -/
theorem outcome?_act (h : c.Orderly number uri) (m : Move) {ticket : Nat}
    {result : Except AnalysisError Reply} (hresult : c.worker.outcome? ticket = some result) :
    (c.act m).worker.outcome? ticket = some result := by
  cases m with
  | knock request =>
    simp only [Reception.act]
    split_ifs <;> exact hresult
  | enter =>
    unfold Reception.act
    cases c.entering with
    | none => exact hresult
    | some request =>
      dsimp only
      rw [enqueue_eq]
      split_ifs <;> exact hresult
  | tellToStop => exact hresult
  | closeQueue =>
    simp only [Reception.act]
    split_ifs <;> exact hresult
  | step =>
    by_cases hran : ∃ x ∈ c.worker.history, x.1.ticket = ticket
    · obtain ⟨x, hx, rfl⟩ := hran
      have hbefore := outcome?_of_mem h.nodup_history hx
      have hafter := outcome?_of_mem h.step.nodup_history (mem_history_step hx)
      rw [hresult, h.uri_eq] at hbefore
      rw [hafter, h.step.uri_eq, hbefore]
    · -- What did not run has an answer only once the worker has exited, and then it stays so.
      have hexited : c.worker.stage = .exited := by
        by_contra hstage
        rw [outcome?_of_notMem (by simpa using hran), if_neg hstage] at hresult
        cases hresult
      have hstep : c.worker.step = c.worker := by
        unfold Worker.step
        rw [hexited]
      simpa [Reception.act, hstep] using hresult

theorem outcome?_run (h : c.Orderly number uri) (moves : List Move) {ticket : Nat}
    {result : Except AnalysisError Reply} (hresult : c.worker.outcome? ticket = some result) :
    (c.run moves).worker.outcome? ticket = some result := by
  induction moves generalizing c with
  | nil => exact hresult
  | cons m moves ih => exact ih (h.act m) (h.outcome?_act m hresult)

theorem labour_steps_le (h : c.Orderly number uri) (n : Nat) :
    (steps n c.worker).labour ≤ c.worker.labour - n := by
  induction n generalizing c with
  | zero => exact le_rfl
  | succ n ih =>
    have hstep := labour_step_le fun hexited => (h.dropped hexited).1
    have hsteps := ih h.step
    change (steps n c.worker.step).labour ≤ _ at hsteps
    change (steps n c.worker.step).labour ≤ _
    have hworker : (c.act .step).worker.labour = c.worker.step.labour := rfl
    omega

/-- A worker that is let go on answers every job it accepted. -/
theorem isSome_outcome?_settle (h : c.Orderly number uri) {job : Job} (hjob : job ∈ c.accepted) :
    (c.worker.settle.outcome? job.ticket).isSome = true := by
  have hsettled : Orderly number uri { c with worker := c.worker.settle } := by
    have hrun := h.run (List.replicate (3 * c.worker.queue.length + 3) .step)
    rw [run_steps] at hrun
    exact hrun
  by_cases hran : ∃ x ∈ c.worker.settle.history, x.1.ticket = job.ticket
  · obtain ⟨x, hx, hticket⟩ := hran
    rw [← hticket, outcome?_of_mem hsettled.nodup_history hx]
    rfl
  · have hjobs : c.worker.settle.jobs = [] := by
      have hle := h.labour_steps_le (3 * c.worker.queue.length + 3)
      have hlabour := c.worker.labour_le
      refine jobs_eq_nil_of_labour ?_
      unfold settle
      omega
    have hexited : c.worker.settle.stage = .exited := by
      by_contra hstage
      have horder : c.accepted = c.worker.settle.ran ++ c.worker.settle.jobs :=
        hsettled.order hstage
      rw [hjobs, List.append_nil] at horder
      rw [horder, ran] at hjob
      obtain ⟨x, hx, hxjob⟩ := List.mem_map.mp hjob
      exact hran ⟨x, List.mem_reverse.mp hx, by rw [hxjob]⟩
    rw [outcome?_of_notMem (by simpa using hran), if_pos hexited]
    rfl

end Orderly

/-! ### After a shutdown -/

/-- Both halves of a shutdown are done. -/
structure ShutDown (c : Reception) : Prop where
  running : c.worker.running = false
  accepting : c.worker.accepting = false
  entering : c.entering = none

namespace ShutDown

/-- Nothing is accepted any more, and a job can only run if it was begun before. -/
theorem act (h : c.ShutDown) (m : Move) :
    (c.act m).ShutDown ∧ (c.act m).accepted = c.accepted ∧
      ∃ begun, (c.act m).worker.ran = c.worker.ran ++ begun ∧
        begun.length + (c.act m).worker.isBusy.toNat ≤ c.worker.isBusy.toNat := by
  have hsame : ∃ begun, c.worker.ran = c.worker.ran ++ begun ∧
      begun.length + c.worker.isBusy.toNat ≤ c.worker.isBusy.toNat :=
    ⟨[], by simp, by simp⟩
  cases m with
  | knock request =>
    have hturned : c.act (.knock request) = c := by
      simp [Reception.act, admits, h.running]
    rw [hturned]
    exact ⟨h, rfl, hsame⟩
  | enter =>
    have hnobody : c.act .enter = c := by simp [Reception.act, h.entering]
    rw [hnobody]
    exact ⟨h, rfl, hsame⟩
  | tellToStop => exact ⟨⟨rfl, h.accepting, h.entering⟩, rfl, hsame⟩
  | closeQueue =>
    have hclosed : c.act .closeQueue = { c with worker := c.worker.closeQueue } := by
      simp [Reception.act, h.entering]
    rw [hclosed]
    exact ⟨⟨h.running, rfl, h.entering⟩, rfl, hsame⟩
  | step =>
    obtain ⟨hrunning, haccepting, _⟩ := step_keeps c.worker
    refine ⟨⟨hrunning.trans h.running, haccepting.trans h.accepting, h.entering⟩, rfl, ?_⟩
    change ∃ begun, c.worker.step.ran = c.worker.ran ++ begun ∧
      begun.length + c.worker.step.isBusy.toNat ≤ c.worker.isBusy.toNat
    rcases step_forms c.worker with ⟨hstep, _⟩ | ⟨job, queue, _, _, hstep⟩ |
      ⟨job, _, hrunning, _⟩ | ⟨job, hstage, hstep⟩ | ⟨_, _, hstep⟩
    · rw [hstep]
      exact hsame
    · exact ⟨[], by simp [hstep, ran], by simp [hstep, isBusy]⟩
    · rw [h.running] at hrunning
      cases hrunning
    · exact ⟨[job], by simp [hstep, ran], by simp [hstep, isBusy, hstage]⟩
    · exact ⟨[], by simp [hstep, ran], by simp [hstep, isBusy]⟩

theorem run (h : c.ShutDown) (moves : List Move) :
    (c.run moves).ShutDown ∧ (c.run moves).accepted = c.accepted ∧
      ∃ begun, (c.run moves).worker.ran = c.worker.ran ++ begun ∧
        begun.length + (c.run moves).worker.isBusy.toNat ≤ c.worker.isBusy.toNat := by
  induction moves generalizing c with
  | nil => exact ⟨h, rfl, [], by simp [Reception.run], by simp [Reception.run]⟩
  | cons m moves ih =>
    obtain ⟨hshutDown, haccepted, first, hfirst, hbusy⟩ := h.act m
    obtain ⟨hshutDown', haccepted', rest, hrest, hbusy'⟩ := ih hshutDown
    refine ⟨hshutDown', haccepted'.trans haccepted, first ++ rest, ?_, ?_⟩
    · exact hrest.trans (by rw [hfirst, List.append_assoc])
    · change (first ++ rest).length + ((c.act m).run moves).worker.isBusy.toNat ≤ _
      rw [List.length_append]
      omega

theorem submit_eq (h : c.ShutDown) (request : Request) :
    c.worker.submit request = .error ⟨.shutDown, c.worker.uri⟩ ∧ c.act (.knock request) = c :=
  ⟨by simp [submit, admits, h.running], by simp [Reception.act, admits, h.running]⟩

end ShutDown

/-- Whatever callers and worker do, and in whatever order: jobs run in the order in which they were
accepted, each once and on what the ones before it left; an answer, once given, is that of the job,
or a failure if the job broke off or was dropped; and a shutdown lets at most one more job run and
none in. -/
theorem every_job_resolves (number : Nat) (uri : String) (moves : List Move) :
    let c := (new number uri).run moves
    c.worker.ran <+: c.accepted ∧ (c.accepted.map Job.ticket).Nodup ∧
      (c.worker.stage ≠ .exited → c.accepted = c.worker.ran ++ c.worker.jobs) ∧
      (c.worker.document, c.worker.history) = c.worker.ran.foldl (after number) ({ uri }, []) ∧
      (∀ x ∈ c.worker.history, c.worker.outcome? x.1.ticket = some (x.2.resolution uri)) ∧
      (∀ job ∈ c.accepted, job ∉ c.worker.ran → c.worker.outcome? job.ticket =
        if c.worker.stage = .exited then some (.error ⟨.taskFailed, uri⟩) else none) ∧
      (∀ job ∈ c.accepted, (c.worker.settle.outcome? job.ticket).isSome = true) ∧
      (∀ later ticket result, c.worker.outcome? ticket = some result →
        (c.run later).worker.outcome? ticket = some result) ∧
      (c.worker.running = false → c.worker.accepting = false → ∀ later,
        (c.run later).accepted = c.accepted ∧
          (∃ begun, (c.run later).worker.ran = c.worker.ran ++ begun ∧ begun.length ≤ 1) ∧
          ∀ request, (c.run later).worker.submit request = .error ⟨.shutDown, uri⟩ ∧
            (c.run later).act (.knock request) = c.run later) := by
  intro c
  have h : c.Orderly number uri := (orderly_new number uri).run moves
  refine ⟨h.ran_prefix, h.nodup_tickets, h.order, h.past, fun x hx => ?_, fun job hjob hran => ?_,
    fun job hjob => h.isSome_outcome?_settle hjob,
    fun later ticket result hresult => h.outcome?_run later hresult,
    fun hrunning haccepting later => ?_⟩
  · rw [outcome?_of_mem h.nodup_history hx, h.uri_eq]
  · rw [outcome?_of_notMem ?_, h.uri_eq]
    -- A job that ran under the same ticket would be the job itself.
    intro x hx hticket
    have hxran : x.1 ∈ c.worker.ran := List.mem_map_of_mem (List.mem_reverse.mpr hx)
    have hxjob := List.inj_on_of_nodup_map h.nodup_tickets (h.ran_prefix.subset hxran) hjob hticket
    exact hran (hxjob ▸ hxran)
  · have hshutDown : c.ShutDown := ⟨hrunning, haccepting, h.locked haccepting⟩
    obtain ⟨hlater, haccepted, begun, hbegun, hbusy⟩ := hshutDown.run later
    have hle : begun.length ≤ 1 := by
      have hone := Bool.toNat_le c.worker.isBusy
      omega
    refine ⟨haccepted, ⟨begun, hbegun, hle⟩, fun request => ?_⟩
    rw [← (h.run later).uri_eq]
    exact hlater.submit_eq request

theorem jobs_resolve_around_shutdown :
    let c := (new 0 "logo:a").run [.knock (.setText "fd 1"), .enter, .knock .highlighting, .step,
      .step, .tellToStop, .enter, .closeQueue]
    (∃ begun, (c.run [.step, .step, .step]).worker.ran = c.worker.ran ++ begun ∧
      begun.length ≤ 1) ∧
      (c.run [.step, .step, .step]).worker.ran.map Job.ticket = [0] ∧
      (c.run [.step, .step, .step]).worker.outcome? 1 = some (.error ⟨.taskFailed, "logo:a"⟩) := by
  intro c
  obtain ⟨_, _, _, _, _, _, _, _, hshutdown⟩ := every_job_resolves 0 "logo:a"
    [.knock (.setText "fd 1"), .enter, .knock .highlighting, .step, .step, .tellToStop, .enter,
      .closeQueue]
  exact ⟨(hshutdown rfl rfl [.step, .step, .step]).2.1, by decide +kernel, by decide +kernel⟩

end Reception

end Worker

end LogoServer
