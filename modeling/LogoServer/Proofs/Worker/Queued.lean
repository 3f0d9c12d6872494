import LogoServer.Proofs.Worker.Reception
import Mathlib.Tactic

/-! Tasks that are queued while a worker is busy, beside tasks of which each is awaited before the
next is handed in. Both come to the same, and every question is answered from the text that was set
last before it. -/
namespace LogoServer

namespace Request

/-- The text that a task gives to the document. -/
def text? : Request → Option String
  | .setText text | .query (.setText text) => some text
  | _ => none

/-- The text that was set last. -/
def lastText (requests : List Request) : Option String :=
  (requests.filterMap text?).getLast?

/-- What a task that breaks off leaves in the log. -/
def logged? (uri : String) : Request → Option LogEntry
  | .panic payload => some (.taskPanicked uri payload.message)
  | _ => none

/-- The answer to a task that finds a text, or none, set before it. -/
def answer (number : Nat) (uri : String) (text : Option String) :
    Request → Except AnalysisError Reply
  | .setText text => .ok (.diagnostics (Parsed.ofText text).diagnostics)
  | .highlighting =>
    match text with
    | some text => .ok (.deltas (Highlight.Delta.ofNumbers (Parsed.ofText text).highlighting))
    | none => .error ⟨.notReady, uri⟩
  | .declaration line character =>
    match text with
    | some text =>
      .ok (.locations (((Parsed.ofText text).declarationsAt line character).map (⟨uri, ·⟩)))
    | none => .error ⟨.notReady, uri⟩
  | .query q => (Document.answer ⟨uri, text.map .ofText⟩ q).1
  | .identify => .ok (.identity number (threadName number))
  | .panic _ => .error ⟨.taskFailed, uri⟩
  | .pause => .ok .done

variable {number : Nat} {uri : String}

theorem lastText_concat (requests : List Request) (request : Request) :
    lastText (requests ++ [request]) = (request.text? <|> lastText requests) := by
  unfold lastText
  cases h : request.text? <;> simp [h]

/-- Only a task that sets a text changes the document. -/
theorem perform_document (number : Nat) (document : Document) (request : Request) :
    (request.perform number document).2 =
      { document with parsed := request.text?.map .ofText <|> document.parsed } := by
  cases request with
  | query q => cases q <;> rfl
  | _ => rfl

theorem perform_ending (number : Nat) (uri : String) (text : Option String) (request : Request) :
    (request.perform number ⟨uri, text.map .ofText⟩).1.resolution uri =
      request.answer number uri text := by
  cases request with
  | highlighting => cases text <;> rfl
  | declaration line character => cases text <;> rfl
  | query q => rfl
  | _ => rfl

end Request

attribute [ext] Worker

namespace Worker

variable {w : Worker} {number : Nat} {uri : String}

/-- Hands in tasks one after the other and waits for none. -/
def submitAll (w : Worker) (requests : List Request) : Except AnalysisError Worker :=
  requests.foldlM (fun w request => (w.submit request).map Prod.snd) w

/-- Hands in tasks, each when the one before it was answered. -/
def askAll (w : Worker) (requests : List Request) : List (Except AnalysisError Reply) × Worker :=
  requests.foldl
    (fun (answers, w) request => (answers ++ [(w.ask request).1], (w.ask request).2)) ([], w)

theorem askAll_nil (w : Worker) : w.askAll [] = ([], w) := rfl

theorem askAll_concat (w : Worker) (requests : List Request) (request : Request) :
    w.askAll (requests ++ [request]) =
      ((w.askAll requests).1 ++ [((w.askAll requests).2.ask request).1],
        ((w.askAll requests).2.ask request).2) := by
  simp [askAll]

/-! ### A worker that settles -/

theorem steps_keeps (n : Nat) (w : Worker) :
    (steps n w).number = w.number ∧ (steps n w).joined = w.joined ∧
      (steps n w).accepted = w.accepted := by
  induction n generalizing w with
  | zero => exact ⟨rfl, rfl, rfl⟩
  | succ n ih =>
    obtain ⟨hnumber, hjoined, haccepted⟩ := ih w.step
    have hstep : w.step.number = w.number ∧ w.step.joined = w.joined := by
      rcases step_forms w with ⟨h, _⟩ | ⟨_, _, _, _, h⟩ | ⟨_, _, _, h⟩ | ⟨_, _, h⟩ | ⟨_, _, h⟩
      all_goals rw [h]; exact ⟨rfl, rfl⟩
    exact ⟨hnumber.trans hstep.1, hjoined.trans hstep.2, haccepted.trans (step_keeps w).2.2.1⟩

/-- A worker that settled is as before, except that its jobs have run. -/
theorem settle_eq (hw : w.Serving) :
    w.settle = { w with
      document := w.foreseen.1
      queue := []
      stage := .idle
      history := w.foreseen.2 } := by
  obtain ⟨hnumber, hjoined, haccepted⟩ := steps_keeps (3 * w.queue.length + 3) w
  have hserving := hw.settle
  have hpast := settled hw
  have hlabour : w.settle.labour = 0 := by
    have hspent := (steps_spec (3 * w.queue.length + 3) hw).2.2
    have hle := w.labour_le
    unfold settle
    omega
  have hjobs := jobs_eq_nil_of_labour hlabour
  have hrests : w.settle.queue = [] ∧ w.settle.stage = .idle := by
    unfold jobs at hjobs
    have hexited := hserving.stage
    split at hjobs <;> simp_all
  exact Worker.ext hnumber (congrArg Prod.fst hpast)
    (hserving.running.trans hw.running.symm) (hserving.accepting.trans hw.accepting.symm) hjoined
    haccepted hrests.1 hrests.2 (congrArg Prod.snd hpast)

theorem Serving.submitted (hw : w.Serving) (request : Request) : (w.submitted request).Serving :=
  ⟨hw.running, hw.accepting, hw.stage⟩

theorem submit_eq (hw : w.Serving) (request : Request) :
    w.submit request = .ok (w.accepted, w.submitted request) := by
  obtain ⟨w', h, _⟩ := submit_spec hw request
  rw [h, (submit_eq_ok h).2]

/-- It makes no difference for a task handed in whether the ones before it were awaited. -/
theorem settle_submitted (hw : w.Serving) (request : Request) :
    (w.submitted request).settle = (w.settle.submitted request).settle := by
  have hforeseen : (w.settle.submitted request).foreseen = (w.submitted request).foreseen := by
    rw [foreseen_submitted, foreseen_submitted, foreseen_settle hw, settle_eq hw]
  rw [settle_eq (hw.submitted request), settle_eq (hw.settle.submitted request), hforeseen,
    settle_eq hw]
  rfl

theorem settle_settle (hw : w.Serving) : w.settle.settle = w.settle := by
  rw [settle_eq hw.settle, foreseen_settle hw, settle_eq hw]

theorem uri_settle (hw : w.Serving) : w.settle.uri = w.uri := by
  rw [settle_eq hw]
  exact w.uri_foreseen

theorem result_of_history {x : Job × Ending} {past : List (Job × Ending)}
    (h : w.history = x :: past) : w.result x.1.ticket = x.2.resolution w.uri := by
  obtain ⟨job, ending⟩ := x
  unfold result outcome?
  rw [h, List.find?_cons_of_pos (by simp)]
  cases ending <;> rfl

/-- The answer to a task that is awaited is what it makes of the document foreseen. -/
theorem ask_eq (hw : w.Serving) (request : Request) :
    w.ask request = ((request.perform w.number w.foreseen.1).1.resolution w.uri,
      (w.submitted request).settle) := by
  have hhistory : (w.submitted request).settle.history =
      (⟨w.accepted, request⟩, (request.perform w.number w.foreseen.1).1) :: w.foreseen.2 := by
    rw [settle_eq (hw.submitted request), foreseen_submitted]
    rfl
  have hresult := result_of_history hhistory
  rw [uri_settle (hw.submitted request)] at hresult
  unfold ask
  rw [submit_eq hw]
  exact Prod.ext hresult rfl

/-- Every ticket in the queue was given out. -/
def Booked (w : Worker) : Prop :=
  ∀ job ∈ w.queue, job.ticket < w.accepted

theorem Booked.submitted (h : w.Booked) (request : Request) : (w.submitted request).Booked := by
  intro job hjob
  rcases List.mem_append.mp hjob with hjob | hjob
  · exact Nat.lt_succ_of_lt (h job hjob)
  · rw [List.mem_singleton.mp hjob]
    exact Nat.lt_succ_self _

/-- A task handed in does not change the answers to the ones before it. -/
theorem result_settle_submitted (hw : w.Serving) (request : Request) {ticket : Nat}
    (h : ticket < w.accepted) :
    (w.submitted request).settle.result ticket = w.settle.result ticket := by
  have hne : w.accepted ≠ ticket := by omega
  rw [settle_eq (hw.submitted request), settle_eq hw, foreseen_submitted]
  unfold result outcome?
  rw [after, List.find?_cons_of_neg (by simpa using hne)]
  simp only [uri, Request.uri_perform]

theorem release_submitted (hw : w.Serving) (hbooked : w.Booked) (request : Request) :
    (w.submitted request).release =
      (w.release.1 ++ [(w.settle.ask request).1], (w.settle.ask request).2) := by
  have hask : (w.settle.ask request).1 = (w.ask request).1 := by
    rw [ask_eq hw.settle, ask_eq hw, foreseen_settle hw, uri_settle hw, settle_eq hw]
  have hresult : (w.submitted request).settle.result w.accepted = (w.ask request).1 := by
    unfold ask
    rw [submit_eq hw]
  have hbefore : ∀ ticket ∈ w.queue.map Job.ticket,
      (w.submitted request).settle.result ticket = w.settle.result ticket := by
    intro ticket hticket
    obtain ⟨job, hjob, rfl⟩ := List.mem_map.mp hticket
    exact result_settle_submitted hw request (hbooked job hjob)
  have hqueue : (w.submitted request).queue.map Job.ticket =
      w.queue.map Job.ticket ++ [w.accepted] := by
    simp [submitted]
  unfold release
  dsimp only
  rw [hqueue, List.map_append, List.map_congr_left hbefore, List.map_singleton, hresult, hask,
    ask_eq hw.settle, settle_submitted hw]

/-- What is queued is run as what is awaited. -/
theorem release_submitAll (hw : w.Serving) (hbooked : w.Booked) (requests : List Request) :
    ∃ q, w.submitAll requests = .ok q ∧ q.Serving ∧ q.Booked ∧
      q.release = (w.release.1 ++ (w.settle.askAll requests).1, (w.settle.askAll requests).2) := by
  induction requests using List.reverseRecOn with
  | nil => exact ⟨w, rfl, hw, hbooked, by simp [askAll, release]⟩
  | append_singleton requests request ih =>
    obtain ⟨q, hq, hserving, hbooked', hrelease⟩ := ih
    have hsettle : q.settle = (w.settle.askAll requests).2 := congrArg Prod.snd hrelease
    refine ⟨q.submitted request, ?_, hserving.submitted request, hbooked'.submitted request, ?_⟩
    · unfold submitAll at hq ⊢
      rw [List.foldlM_append, hq]
      simp [submit_eq hserving, Except.map, bind, Except.bind, pure, Except.pure]
    · rw [release_submitted hserving hbooked', askAll_concat, hsettle, hrelease, List.append_assoc]

/-! ### What the answers are about -/

/-- The log of jobs that ran, newest first. -/
def entries (uri : String) (history : List (Job × Ending)) : List LogEntry :=
  history.reverse.filterMap fun x =>
    match x.2 with
    | .panicked payload => some (.taskPanicked uri payload.message)
    | .returned _ => none

/-- A worker at work for the given tasks: where they leave its document and its log. -/
structure Told (number : Nat) (uri : String) (requests : List Request) (w : Worker) : Prop where
  serving : w.Serving
  number_eq : w.number = number
  document : w.foreseen.1 = ⟨uri, (Request.lastText requests).map .ofText⟩
  entries : entries uri w.foreseen.2 = requests.filterMap (Request.logged? uri)

/-- What one more job does to a document and a log. -/
theorem after_spec (number : Nat) {past : Document × List (Job × Ending)} {requests : List Request}
    (hdocument : past.1 = ⟨uri, (Request.lastText requests).map .ofText⟩)
    (hentries : entries uri past.2 = requests.filterMap (Request.logged? uri)) (job : Job) :
    (after number past job).1 =
        ⟨uri, (Request.lastText (requests ++ [job.request])).map .ofText⟩ ∧
      entries uri (after number past job).2 =
        (requests ++ [job.request]).filterMap (Request.logged? uri) := by
  constructor
  · unfold after
    dsimp only
    rw [Request.perform_document, hdocument, Request.lastText_concat]
    cases job.request.text? <;> rfl
  · have hentry : ∀ request : Request,
        entries uri [(job, (request.perform number past.1).1)] =
          [request].filterMap (Request.logged? uri) := by
      intro request
      cases request <;> rfl
    have hsplit : entries uri (after number past job).2 =
        entries uri past.2 ++ entries uri [(job, (job.request.perform number past.1).1)] := by
      simp [after, entries]
    rw [hsplit, hentries, hentry, List.filterMap_append]

theorem foldl_after_spec (number : Nat) (uri : String) (jobs : List Job) :
    (jobs.foldl (after number) ({ uri }, [])).1 =
        ⟨uri, (Request.lastText (jobs.map Job.request)).map .ofText⟩ ∧
      entries uri (jobs.foldl (after number) ({ uri }, [])).2 =
        (jobs.map Job.request).filterMap (Request.logged? uri) := by
  induction jobs using List.reverseRecOn with
  | nil => exact ⟨rfl, rfl⟩
  | append_singleton jobs job ih =>
    rw [List.foldl_concat, List.map_append]
    exact after_spec number ih.1 ih.2 job

namespace Told

variable {requests : List Request}

theorem settle (h : w.Told number uri requests) : w.settle.Told number uri requests := by
  have hforeseen := foreseen_settle h.serving
  refine ⟨h.serving.settle, ?_, by rw [hforeseen]; exact h.document,
    by rw [hforeseen]; exact h.entries⟩
  rw [settle_eq h.serving]
  exact h.number_eq

theorem submitted (h : w.Told number uri requests) (request : Request) :
    (w.submitted request).Told number uri (requests ++ [request]) := by
  obtain ⟨hdocument, hentries⟩ :=
    after_spec w.number h.document h.entries ⟨w.accepted, request⟩
  refine ⟨h.serving.submitted request, h.number_eq, ?_, ?_⟩
  · rwa [foreseen_submitted]
  · rwa [foreseen_submitted]

theorem uri_eq (h : w.Told number uri requests) : w.uri = uri := by
  rw [← uri_foreseen, h.document]

theorem ask (h : w.Told number uri requests) (request : Request) :
    (w.ask request).1 = request.answer number uri (Request.lastText requests) ∧
      (w.ask request).2.Told number uri (requests ++ [request]) := by
  rw [ask_eq h.serving, h.document, h.number_eq, h.uri_eq]
  exact ⟨Request.perform_ending number uri _ request, (h.submitted request).settle⟩

/-- Where the tasks leave the document and the log of a worker that settled. -/
theorem rest (h : w.Told number uri requests) :
    w.settle.document = ⟨uri, (Request.lastText requests).map .ofText⟩ ∧
      w.settle.log = requests.filterMap (Request.logged? uri) := by
  have hsettled := settled h.serving
  have hdocument : w.settle.document = w.foreseen.1 := congrArg Prod.fst hsettled
  have hlog : w.settle.log = Worker.entries uri w.foreseen.2 := by
    rw [← h.uri_eq, ← uri_settle h.serving, ← hsettled]
    rfl
  exact ⟨hdocument.trans h.document, hlog.trans h.entries⟩

theorem askAll (h : w.Told number uri requests) (later : List Request) :
    (w.askAll later).1.length = later.length ∧
      (∀ (i : Nat) (request : Request), later[i]? = some request → (w.askAll later).1[i]? =
        some (request.answer number uri (Request.lastText (requests ++ later.take i)))) ∧
      (w.askAll later).2.Told number uri (requests ++ later) := by
  induction later using List.reverseRecOn with
  | nil => exact ⟨rfl, by simp, by simpa [askAll_nil] using h⟩
  | append_singleton later request ih =>
    obtain ⟨hlength, hanswers, htold⟩ := ih
    obtain ⟨hanswer, htold'⟩ := htold.ask request
    rw [askAll_concat, ← List.append_assoc]
    refine ⟨by simp [hlength], fun i r hr => ?_, htold'⟩
    by_cases hi : i < later.length
    · rw [List.getElem?_append_left hi] at hr
      rw [List.getElem?_append_left (by omega), hanswers i r hr,
        List.take_append_of_le_length (by omega)]
    · have hi' : i = later.length := by
        have hlt := (List.getElem?_eq_some_iff.mp hr).1
        rw [List.length_append, List.length_singleton] at hlt
        omega
      subst hi'
      rw [List.getElem?_concat_length] at hr
      cases hr
      rw [← hlength, List.getElem?_concat_length, hanswer, hlength, List.take_left]

end Told

namespace Reception

variable {c : Reception}

theorem serving_of_admits (h : c.worker.stage = .exited → c.worker.admits = false)
    (hadmits : c.worker.admits = true) : c.worker.Serving := by
  have hboth : c.worker.running = true ∧ c.worker.accepting = true := by
    simpa [admits] using hadmits
  refine ⟨hboth.1, hboth.2, fun hexited => ?_⟩
  rw [h hexited] at hadmits
  cases hadmits

/-- A worker leaves only when it was told to or no more tasks come. -/
theorem not_admits_act (h : c.worker.stage = .exited → c.worker.admits = false) (m : Move) :
    (c.act m).worker.stage = .exited → (c.act m).worker.admits = false := by
  cases m with
  | knock request =>
    simp only [act]
    split_ifs <;> exact h
  | enter =>
    unfold act
    cases c.entering with
    | none => exact h
    | some request =>
      dsimp only
      rw [enqueue_eq]
      split_ifs <;> exact h
  | tellToStop => exact fun _ => rfl
  | closeQueue =>
    simp only [act]
    split_ifs
    · exact fun _ => Bool.and_false _
    · exact h
  | step =>
    intro hexited
    by_contra hadmits
    have hserving : c.worker.Serving := by
      obtain ⟨hrunning, haccepting, _⟩ := step_keeps c.worker
      have hbefore : c.worker.admits = true := by
        simpa [Reception.act, admits, hrunning, haccepting] using hadmits
      exact serving_of_admits h hbefore
    exact hserving.step.stage hexited

theorem not_admits_run (h : c.worker.stage = .exited → c.worker.admits = false)
    (moves : List Move) :
    (c.run moves).worker.stage = .exited → (c.run moves).worker.admits = false := by
  induction moves generalizing c with
  | nil => exact h
  | cons m moves ih => exact ih (not_admits_act h m)

theorem Orderly.told (h : c.Orderly number uri) (hserving : c.worker.Serving) :
    c.worker.Told number uri (c.accepted.map Job.request) := by
  have hforeseen : c.worker.foreseen = c.accepted.foldl (after number) ({ uri }, []) := by
    rw [foreseen, h.number_eq, h.past, h.order hserving.stage, List.foldl_append]
  obtain ⟨hdocument, hentries⟩ := foldl_after_spec number uri c.accepted
  exact ⟨hserving, h.number_eq, hforeseen ▸ hdocument, hforeseen ▸ hentries⟩

theorem Orderly.booked (h : c.Orderly number uri) (hserving : c.worker.Serving) :
    c.worker.Booked := by
  intro job hjob
  have haccepted : job ∈ c.accepted := by
    rw [h.order hserving.stage]
    refine List.mem_append_right _ ?_
    unfold jobs
    cases c.worker.stage <;> simp [hjob]
  have hticket : job.ticket ∈ c.accepted.map Job.ticket := List.mem_map_of_mem haccepted
  rw [h.tickets] at hticket
  exact List.mem_range.mp hticket

/-- Whatever a worker that takes tasks is at, tasks that are queued behind it and run when it is let
go come to the same, in answers, log and document, as tasks that are awaited one by one. Each is
answered from the text that was set last before it, and one that breaks off is told so and logged
once. -/
theorem queued_as_awaited (number : Nat) (uri : String) (moves : List Move)
    (requests : List Request) (h : ((new number uri).run moves).worker.admits = true) :
    let c := (new number uri).run moves
    let awaited := c.worker.settle.askAll requests
    (∃ q, c.worker.submitAll requests = .ok q ∧
      q.release = (c.worker.release.1 ++ awaited.1, awaited.2)) ∧
      awaited.1.length = requests.length ∧
      (∀ (i : Nat) (request : Request), requests[i]? = some request → awaited.1[i]? =
        some (request.answer number uri
          (Request.lastText (c.accepted.map Job.request ++ requests.take i)))) ∧
      awaited.2.document =
        ⟨uri, (Request.lastText (c.accepted.map Job.request ++ requests)).map .ofText⟩ ∧
      awaited.2.log = c.worker.settle.log ++ requests.filterMap (Request.logged? uri) := by
  intro c awaited
  have horderly : c.Orderly number uri := (orderly_new number uri).run moves
  have hserving : c.worker.Serving :=
    serving_of_admits (not_admits_run (by simp [new, start]) moves) h
  have htold := horderly.told hserving
  obtain ⟨q, hq, hqserving, _, hrelease⟩ :=
    release_submitAll hserving (horderly.booked hserving) requests
  obtain ⟨hlength, hanswers, hawaited⟩ := htold.settle.askAll requests
  have hrests : awaited.2.settle = awaited.2 := by
    have hsettle : q.settle = awaited.2 := congrArg Prod.snd hrelease
    rw [← hsettle, settle_settle hqserving]
  obtain ⟨hdocument, hlog⟩ := hawaited.rest
  refine ⟨⟨q, hq, hrelease⟩, hlength, hanswers, ?_, ?_⟩
  · rw [← hdocument, hrests]
  · rw [htold.rest.2, ← List.filterMap_append, ← hlog, hrests]

/-- Behind a worker that is held after it read a text: the first question is about that text and
the last one about the text that was queued with it. -/
theorem queued_behind_pause :
    let moves : List Move := [.knock (.setText "fd"), .enter, .knock .pause, .enter, .step, .step,
      .step, .step, .step]
    let requests : List Request :=
      [.highlighting, .panic .other, .setText "make \"a :a", .panic (.text "x"), .declaration 0 9]
    let c := (new 0 "logo:a").run moves
    let awaited := c.worker.settle.askAll requests
    c.worker.isBusy = true ∧
      (∃ q, c.worker.submitAll requests = .ok q ∧
        q.release = (c.worker.release.1 ++ awaited.1, awaited.2)) ∧
      awaited.1 = [.ok (.deltas [⟨0, 0, 2, 0, 0⟩]), .error ⟨.taskFailed, "logo:a"⟩,
        .ok (.diagnostics []), .error ⟨.taskFailed, "logo:a"⟩,
        .ok (.locations [⟨"logo:a", ⟨0, 5, 7⟩⟩])] ∧
      awaited.2.log = [.taskPanicked "logo:a" "unknown panic", .taskPanicked "logo:a" "x"] := by
  intro moves requests c awaited
  obtain ⟨hqueued, _⟩ := queued_as_awaited 0 "logo:a" moves requests (by decide +kernel)
  exact ⟨by decide +kernel, hqueued, by decide +kernel, by decide +kernel⟩

end Reception

end Worker

end LogoServer
