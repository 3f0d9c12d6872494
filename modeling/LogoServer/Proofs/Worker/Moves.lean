import LogoServer.Proofs.Worker.Foreseen
import Mathlib.Tactic

/-! What a worker can come to by any tasks handed in, words to stop and steps of its own. A ticket,
once given out, stays with its task; and as long as the worker is not told to stop, no task that was
accepted is lost. -/
namespace LogoServer.Worker

variable {w w' : Worker} {request : Request} {ticket : Nat}

theorem submit_eq_ok (h : w.submit request = .ok (ticket, w')) :
    ticket = w.accepted ∧ w' = w.submitted request := by
  unfold submit enqueue at h
  split_ifs at h
  cases h
  exact ⟨rfl, rfl⟩

/-- A step of the worker itself leaves alone what others decide. -/
theorem step_keeps (w : Worker) :
    w.step.running = w.running ∧ w.step.accepting = w.accepting ∧ w.step.accepted = w.accepted ∧
      w.step.uri = w.uri := by
  unfold step
  cases w.stage with
  | idle =>
    cases w.queue with
    | cons job queue => exact ⟨rfl, rfl, rfl, rfl⟩
    | nil =>
      dsimp only
      split_ifs <;> exact ⟨rfl, rfl, rfl, rfl⟩
  | taken job =>
    dsimp only
    split_ifs <;> exact ⟨rfl, rfl, rfl, rfl⟩
  | busy job => exact ⟨rfl, rfl, rfl, Request.uri_perform w.number w.document job.request⟩
  | exited => exact ⟨rfl, rfl, rfl, rfl⟩

theorem serving_of_step (h : w.step.Serving) : w.Serving := by
  obtain ⟨hrunning, haccepting, _⟩ := step_keeps w
  refine ⟨hrunning ▸ h.running, haccepting ▸ h.accepting, fun hexited => h.stage ?_⟩
  unfold step
  rw [hexited]
  exact hexited

/-- Nothing that ran is forgotten. -/
theorem history_suffix (number : Nat) (jobs : List Job) (past : Document × List (Job × Ending)) :
    past.2 <:+ (jobs.foldl (after number) past).2 := by
  induction jobs generalizing past with
  | nil => exact List.suffix_rfl
  | cons job jobs ih => exact (List.suffix_cons _ _).trans (ih (after number past job))

theorem mem_foreseen_of_mem_history {x : Job × Ending} (h : x ∈ w.history) : x ∈ w.foreseen.2 :=
  (history_suffix w.number w.jobs (w.document, w.history)).subset h

/-- A step brings nothing about that was not foreseen, whether the worker was told to stop or
not. -/
theorem mem_foreseen_of_step {x : Job × Ending} (h : x ∈ w.step.foreseen.2) :
    x ∈ w.foreseen.2 := by
  cases hstage : w.stage with
  | idle =>
    cases hqueue : w.queue with
    | cons job queue => simpa [step, foreseen, jobs, hstage, hqueue] using h
    | nil =>
      unfold step at h
      simp only [hstage, hqueue] at h
      split_ifs at h
      · exact h
      · simpa [foreseen, jobs, hstage, hqueue] using h
  | taken job =>
    unfold step at h
    simp only [hstage] at h
    split_ifs at h
    · simpa [foreseen, jobs, hstage] using h
    · -- The job at hand and the queue are dropped.
      exact mem_foreseen_of_mem_history (by simpa [foreseen, jobs] using h)
  | busy job => simpa [step, foreseen, jobs, hstage, after] using h
  | exited => simpa [step, hstage] using h

/-- What a worker can come to. -/
inductive Moves (w : Worker) : Worker → Prop
  | refl : Moves w w
  | submit {w' w'' : Worker} {request : Request} {ticket : Nat} (h : Moves w w')
      (hsubmit : w'.submit request = .ok (ticket, w'')) : Moves w w''
  | shutdown {w' : Worker} (h : Moves w w') : Moves w w'.shutdown
  | step {w' : Worker} (h : Moves w w') : Moves w w'.step

namespace Moves

theorem trans {w'' : Worker} (h : w.Moves w') (h' : w'.Moves w'') : w.Moves w'' := by
  induction h' with
  | refl => exact h
  | submit _ hsubmit ih => exact ih.submit hsubmit
  | shutdown _ ih => exact ih.shutdown
  | step _ ih => exact ih.step

theorem settle (w : Worker) : w.Moves w.settle := by
  have hsteps : ∀ n v, w.Moves v → w.Moves (steps n v) := by
    intro n
    induction n with
    | zero => exact fun _ hv => hv
    | succ n ih => exact fun v hv => ih v.step hv.step
  exact hsteps _ w .refl

theorem accepted_le (h : w.Moves w') : w.accepted ≤ w'.accepted := by
  induction h with
  | refl => exact le_rfl
  | submit _ hsubmit ih =>
    rw [(submit_eq_ok hsubmit).2]
    exact Nat.le_succ_of_le ih
  | shutdown _ ih => exact ih
  | @step w' _ ih =>
    rw [(step_keeps w').2.2.1]
    exact ih

/-- What is foreseen under a ticket given out before was foreseen then. -/
theorem mem_foreseen (h : w.Moves w') {x : Job × Ending} (hx : x ∈ w'.foreseen.2)
    (hticket : x.1.ticket < w.accepted) : x ∈ w.foreseen.2 := by
  induction h with
  | refl => exact hx
  | submit h hsubmit ih =>
    rw [(submit_eq_ok hsubmit).2, foreseen_submitted] at hx
    rcases List.mem_cons.mp hx with rfl | hx
    · have hle := h.accepted_le
      dsimp only at hticket
      omega
    · exact ih hx
  | shutdown _ ih => exact ih hx
  | step _ ih => exact ih (mem_foreseen_of_step hx)

/-- A worker that serves has served all along and lost no job. -/
theorem serving (h : w.Moves w') (hw' : w'.Serving) :
    w.Serving ∧ w.foreseen.2 ⊆ w'.foreseen.2 := by
  induction h with
  | refl => exact ⟨hw', List.Subset.refl _⟩
  | submit _ hsubmit ih =>
    rw [(submit_eq_ok hsubmit).2] at hw' ⊢
    obtain ⟨hserving, hsubset⟩ := ih ⟨hw'.running, hw'.accepting, hw'.stage⟩
    rw [foreseen_submitted]
    exact ⟨hserving, List.Subset.trans hsubset (List.subset_cons_self _ _)⟩
  | shutdown => cases hw'.running
  | step _ ih =>
    have hbefore := serving_of_step hw'
    rw [foreseen_step hbefore]
    exact ih hbefore

end Moves

/-- The tickets of all jobs were given out. -/
def Ticketed (w : Worker) : Prop :=
  ∀ x ∈ w.foreseen.2, x.1.ticket < w.accepted

theorem ticketed_start (number : Nat) (uri : String) : (start number uri).Ticketed := by
  simp [Ticketed, start, foreseen, jobs]

theorem Moves.ticketed (h : w.Moves w') (hw : w.Ticketed) : w'.Ticketed := by
  intro x hx
  induction h with
  | refl => exact hw x hx
  | @submit w' _ _ _ _ hsubmit ih =>
    rw [(submit_eq_ok hsubmit).2] at hx ⊢
    rw [foreseen_submitted] at hx
    rcases List.mem_cons.mp hx with rfl | hx
    · exact Nat.lt_succ_self w'.accepted
    · exact Nat.lt_succ_of_lt (ih hx)
  | shutdown _ ih => exact ih hx
  | @step w' _ ih =>
    rw [(step_keeps w').2.2.1]
    exact ih (mem_foreseen_of_step hx)

/-! ### A text to be read -/

/-- The worker was given a text under a ticket: whatever it answers under that ticket is what is
wrong with the text. -/
structure Entrusted (w : Worker) (ticket : Nat) (text : String) : Prop where
  given : ticket < w.accepted
  ending : ∀ x ∈ w.foreseen.2, x.1.ticket = ticket →
    x.2 = .returned (.ok (.diagnostics (Parsed.ofText text).diagnostics))

theorem Entrusted.moves {text : String} (hw : w.Entrusted ticket text) (h : w.Moves w') :
    w'.Entrusted ticket text := by
  refine ⟨lt_of_lt_of_le hw.given h.accepted_le, fun x hx hticket => ?_⟩
  have hgiven := hw.given
  exact hw.ending x (h.mem_foreseen hx (by omega)) hticket

/-- A text that is handed in, with the job that reads it. -/
theorem entrusted_submit {text : String} (hw : w.Ticketed)
    (h : w.submit (.setText text) = .ok (ticket, w')) :
    w'.Entrusted ticket text ∧ ∃ x ∈ w'.foreseen.2, x.1.ticket = ticket := by
  obtain ⟨rfl, rfl⟩ := submit_eq_ok h
  have hforeseen := foreseen_submitted w (.setText text)
  refine ⟨⟨Nat.lt_succ_self _, fun x hx hticket => ?_⟩, ?_⟩
  · rw [hforeseen] at hx
    rcases List.mem_cons.mp hx with rfl | hx
    · rfl
    · have hlt := hw x hx
      omega
  · rw [hforeseen]
    exact ⟨_, List.mem_cons_self, rfl⟩

theorem result_eq_error (h : ∀ x ∈ w.history, x.1.ticket ≠ ticket) :
    w.result ticket = .error ⟨.taskFailed, w.uri⟩ := by
  have hfind : w.history.find? (·.1.ticket == ticket) = none := by
    simpa [List.find?_eq_none] using h
  unfold Worker.result outcome?
  rw [hfind]
  dsimp only
  split_ifs <;> rfl

theorem Entrusted.result_eq_ok {text : String} (hw : w.Entrusted ticket text)
    (h : ∃ x ∈ w.history, x.1.ticket = ticket) :
    w.result ticket = .ok (.diagnostics (Parsed.ofText text).diagnostics) := by
  have hsome : (w.history.find? (·.1.ticket == ticket)).isSome = true := by
    simpa [List.find?_isSome] using h
  obtain ⟨⟨job, ending⟩, hfind⟩ := Option.isSome_iff_exists.mp hsome
  have hticket : job.ticket = ticket := by simpa using List.find?_some hfind
  have hending : ending = _ := hw.ending (job, ending)
    (mem_foreseen_of_mem_history (List.mem_of_find?_eq_some hfind)) hticket
  unfold Worker.result outcome?
  rw [hfind, hending]
  rfl

/-- The answer under the ticket of a text is about that text, if there is one. -/
theorem Entrusted.result_settle {text : String} (hw : w.Entrusted ticket text) :
    w.settle.result ticket = .ok (.diagnostics (Parsed.ofText text).diagnostics) ∨
      w.settle.result ticket = .error ⟨.taskFailed, w.settle.uri⟩ := by
  by_cases h : ∃ x ∈ w.settle.history, x.1.ticket = ticket
  · exact .inl ((hw.moves (.settle w)).result_eq_ok h)
  · exact .inr (result_eq_error fun x hx hticket => h ⟨x, hx, hticket⟩)

/-- A worker that serves and has the job gives the answer. -/
theorem Entrusted.result_of_serving {text : String} (hw : w.Entrusted ticket text)
    (hserving : w.Serving) (hjob : ∃ x ∈ w.foreseen.2, x.1.ticket = ticket) :
    w.settle.result ticket = .ok (.diagnostics (Parsed.ofText text).diagnostics) := by
  have hhistory : w.settle.history = w.foreseen.2 := congrArg Prod.snd (settled hserving)
  refine (hw.moves (.settle w)).result_eq_ok ?_
  rwa [hhistory]

end LogoServer.Worker
