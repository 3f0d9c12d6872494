import LogoServer.Proofs.Server.Holding
import Mathlib.Tactic

/-! Sessions with an editor: calls at times that never go back, with workers and publications taking
their turns in between. What is asked of a document is answered from the last text taken over. -/
namespace LogoServer

/-- The document and the text that a call is meant to give it. -/
def Call.givenText? : Call → Option (String × String)
  | .opened uri _ text => some (uri, text)
  | .changed uri _ changes =>
    if changes.any Change.isPartial then none else changes.getLast?.map fun c => (uri, c.text)
  | _ => none

/-- The text of a document that is taken over from a call: it has to be within the limit. -/
def Call.acceptedText? (maxSize : Nat) (u : String) (c : Call) : Option String :=
  match c.givenText? with
  | some (uri, text) => if uri = u ∧ text.utf8ByteSize ≤ maxSize then some text else none
  | none => none

namespace Server

open Registry (parkUntil)

/-- After the calls of a history, oldest first, a text is the last that was taken over for a
document and the document is not forgotten: neither by a shutdown nor because it was closed long
enough ago. -/
def Current (delay maxSize : Nat) (history : List (Nat × Call)) (now : Nat) (u text : String) :
    Prop :=
  ∃ before time call after, history = before ++ (time, call) :: after ∧
    call.acceptedText? maxSize u = some text ∧
    (∀ x ∈ after, x.2.acceptedText? maxSize u = none ∧ x.2 ≠ .shutdown) ∧
    ∀ closing ∈ after.find? fun x => x.2 = .closed u, now < closing.1 + delay

/-- The states a server can be in, with the time and the history of calls. -/
inductive Session (delay maxSize : Nat) : Nat → List (Nat × Call) → Server → Prop
  | start : Session delay maxSize 0 [] (.start delay maxSize)
  | call {clock now : Nat} {history : List (Nat × Call)} {s : Server}
      (h : Session delay maxSize clock history s) (hclock : clock ≤ now) (c : Call) :
      Session delay maxSize now (history ++ [(now, c)]) (s.call now c).server
  /-- A publication is carried out. -/
  | publish {clock : Nat} {history : List (Nat × Call)} {s : Server} {p : Publication}
      (h : Session delay maxSize clock history s) (hp : p ∈ s.pending) :
      Session delay maxSize clock history ({ s with pending := s.pending.erase p }.publish p).2
  /-- A worker takes a step. -/
  | work {clock : Nat} {history : List (Nat × Call)} {s : Server}
      (h : Session delay maxSize clock history s) (worker : Nat) :
      Session delay maxSize clock history
        { s with registry := s.registry.update worker Worker.step }

/-! ### What a history leaves to be held -/

/-- What is to be held for a document after one more call. -/
def follow (delay maxSize : Nat) (u : String) (held : Option Holding) (x : Nat × Call) :
    Option Holding :=
  match x.2.acceptedText? maxSize u with
  | some text => some ⟨⟨u, some (.ofText text)⟩, none⟩
  | none =>
    match x.2 with
    | .shutdown => none
    | .closed uri => if uri = u then held.map (parkUntil (x.1 + delay)) else held
    | _ => held

def known (delay maxSize : Nat) (u : String) (history : List (Nat × Call)) : Option Holding :=
  history.foldl (follow delay maxSize u) none

variable {delay maxSize : Nat} {u : String}

theorem known_concat (history : List (Nat × Call)) (x : Nat × Call) :
    known delay maxSize u (history ++ [x]) =
      follow delay maxSize u (known delay maxSize u history) x := by
  simp [known]

theorem follow_closed {held : Option Holding} {x : Nat × Call} (hx : x.2 = .closed u) :
    follow delay maxSize u held x = held.map (parkUntil (x.1 + delay)) := by
  simp [follow, hx, Call.acceptedText?, Call.givenText?]

theorem follow_other {held : Option Holding} {x : Nat × Call}
    (haccepted : x.2.acceptedText? maxSize u = none) (hshutdown : x.2 ≠ .shutdown)
    (hclosed : x.2 ≠ .closed u) : follow delay maxSize u held x = held := by
  obtain ⟨time, c⟩ := x
  unfold follow
  simp only [haccepted]
  cases c with
  | shutdown => exact absurd rfl hshutdown
  | closed uri =>
    have huri : uri ≠ u := by
      rintro rfl
      exact hclosed rfl
    simp [huri]
  | _ => rfl

/-- Behind a text that was taken over, only the first closing counts. -/
theorem foldl_follow {after : List (Nat × Call)} (document : Document) (due : Option Nat)
    (hafter : ∀ x ∈ after, x.2.acceptedText? maxSize u = none ∧ x.2 ≠ .shutdown) :
    after.foldl (follow delay maxSize u) (some ⟨document, due⟩) =
      some ⟨document, due.or ((after.find? fun x => x.2 = .closed u).map (·.1 + delay))⟩ := by
  induction after generalizing due with
  | nil => simp
  | cons x after ih =>
    obtain ⟨⟨haccepted, hshutdown⟩, hrest⟩ := List.forall_mem_cons.mp hafter
    rw [List.foldl_cons]
    by_cases hclosed : x.2 = .closed u
    · rw [follow_closed hclosed, Option.map_some, parkUntil, ih _ hrest]
      cases due <;> simp [hclosed]
    · rw [follow_other haccepted hshutdown hclosed, ih _ hrest]
      simp [hclosed]

/-- What is known stems from the last text taken over since the last shutdown. -/
theorem exists_accepted_of_known {history : List (Nat × Call)} {held : Holding}
    (h : known delay maxSize u history = some held) :
    ∃ before time call after text, history = before ++ (time, call) :: after ∧
      call.acceptedText? maxSize u = some text ∧
      ∀ x ∈ after, x.2.acceptedText? maxSize u = none ∧ x.2 ≠ .shutdown := by
  induction history using List.reverseRecOn generalizing held with
  | nil => cases h
  | append_singleton history x ih =>
    rw [known_concat] at h
    cases haccepted : x.2.acceptedText? maxSize u with
    | some text => exact ⟨history, x.1, x.2, [], text, rfl, haccepted, by simp⟩
    | none =>
      have hshutdown : x.2 ≠ .shutdown := by
        intro hshutdown
        simp [follow, hshutdown, Call.acceptedText?, Call.givenText?] at h
      have hbefore : ∃ held', known delay maxSize u history = some held' := by
        by_cases hclosed : x.2 = .closed u
        · rw [follow_closed hclosed] at h
          obtain ⟨held', hheld', _⟩ := Option.map_eq_some_iff.mp h
          exact ⟨held', hheld'⟩
        · rw [follow_other haccepted hshutdown hclosed] at h
          exact ⟨held, h⟩
      obtain ⟨held', hheld'⟩ := hbefore
      obtain ⟨before, time, call, after, text, rfl, hcall, hafter⟩ := ih hheld'
      refine ⟨before, time, call, after ++ [x], text, by simp, hcall, fun y hy => ?_⟩
      rcases List.mem_append.mp hy with hy | hy
      · exact hafter y hy
      · rw [List.mem_singleton.mp hy]
        exact ⟨haccepted, hshutdown⟩

theorem known_of_accepted {before after : List (Nat × Call)} {time : Nat} {call : Call}
    {text : String} (hcall : call.acceptedText? maxSize u = some text)
    (hafter : ∀ x ∈ after, x.2.acceptedText? maxSize u = none ∧ x.2 ≠ .shutdown) :
    known delay maxSize u (before ++ (time, call) :: after) =
      some ⟨⟨u, some (.ofText text)⟩,
        (after.find? fun x => x.2 = .closed u).map (·.1 + delay)⟩ := by
  have hfollow : ∀ held, follow delay maxSize u held (time, call) =
      some ⟨⟨u, some (.ofText text)⟩, none⟩ := by
    intro held
    simp [follow, hcall]
  rw [known, List.foldl_append, List.foldl_cons, hfollow, foldl_follow _ _ hafter, Option.none_or]

variable {history : List (Nat × Call)} {now : Nat}

theorem filter_known_of_current {text : String}
    (h : Current delay maxSize history now u text) :
    ∃ due, (known delay maxSize u history).filter (Holding.lasts now) =
      some ⟨⟨u, some (.ofText text)⟩, due⟩ := by
  obtain ⟨before, time, call, after, rfl, hcall, hafter, hclosing⟩ := h
  refine ⟨(after.find? fun x => x.2 = .closed u).map (·.1 + delay), ?_⟩
  rw [known_of_accepted hcall hafter, Option.filter_some_pos]
  cases hfind : after.find? fun x => x.2 = .closed u with
  | none => rfl
  | some closing => simpa [Holding.lasts] using hclosing closing hfind

theorem filter_known_of_not_current (h : ∀ text, ¬ Current delay maxSize history now u text) :
    (known delay maxSize u history).filter (Holding.lasts now) = none := by
  cases hknown : known delay maxSize u history with
  | none => rfl
  | some held =>
    obtain ⟨before, time, call, after, text, rfl, hcall, hafter⟩ := exists_accepted_of_known hknown
    rw [← hknown, known_of_accepted hcall hafter, Option.filter_some, if_neg]
    intro hlasts
    refine h text ⟨before, time, call, after, rfl, hcall, hafter, fun closing hfind => ?_⟩
    rw [Option.mem_def] at hfind
    simpa [Holding.lasts, hfind] using hlasts

/-! ### Holding on to the history -/

/-- At a time and after a history of calls, the server holds what is known, except perhaps for
documents that are forgotten by then. -/
structure Tracks (delay maxSize clock : Nat) (history : List (Nat × Call)) (s : Server) : Prop where
  valid : s.registry.Valid
  delay_eq : s.registry.delay = delay
  maxSize_eq : s.maxSize = maxSize
  held : ∀ u now, clock ≤ now → (s.registry.held u).filter (Holding.lasts now) =
    (known delay maxSize u history).filter (Holding.lasts now)

theorem tracks_start (delay maxSize : Nat) : Tracks delay maxSize 0 [] (.start delay maxSize) where
  valid := Registry.valid_start delay
  delay_eq := rfl
  maxSize_eq := rfl
  held := fun u now _ => by
    have hheld : (start delay maxSize).registry.held u = none := by
      simp [start, Registry.held, Registry.assigned?]
    rw [hheld]
    rfl

variable {clock : Nat} {s s' : Server}

/-- Steps that leave what is held do not disturb the account of the history. -/
theorem Tracks.of_held (h : Tracks delay maxSize clock history s) (hvalid : s'.registry.Valid)
    (hdelay : s'.registry.delay = s.registry.delay) (hmaxSize : s'.maxSize = s.maxSize)
    (hheld : ∀ u, s'.registry.held u = s.registry.held u) :
    Tracks delay maxSize clock history s' := by
  refine ⟨hvalid, hdelay.trans h.delay_eq, hmaxSize.trans h.maxSize_eq, fun u now hnow => ?_⟩
  rw [hheld]
  exact h.held u now hnow

/-- A call leads on if it does to what is held what the history says. -/
theorem Tracks.of_follow (h : Tracks delay maxSize clock history s) (hclock : clock ≤ now)
    (c : Call) (hvalid : s'.registry.Valid) (hdelay : s'.registry.delay = s.registry.delay)
    (hmaxSize : s'.maxSize = s.maxSize)
    (hheld : ∀ u later, now ≤ later → (s'.registry.held u).filter (Holding.lasts later) =
      (follow delay maxSize u (s.registry.held u) (now, c)).filter (Holding.lasts later)) :
    Tracks delay maxSize now (history ++ [(now, c)]) s' := by
  refine ⟨hvalid, hdelay.trans h.delay_eq, hmaxSize.trans h.maxSize_eq, fun u later hlater => ?_⟩
  have heq := h.held u later (hclock.trans hlater)
  rw [hheld u later hlater, known_concat]
  unfold follow
  cases haccepted : c.acceptedText? maxSize u with
  | some text => rfl
  | none =>
    cases c with
    | shutdown => rfl
    | closed uri =>
      by_cases huri : uri = u
      · have hnow := h.held u now hclock
        simp only [huri, if_true]
        rw [← Registry.filter_lasts_parkUntil hlater, hnow, Registry.filter_lasts_parkUntil hlater]
      · simpa [huri] using heq
    | _ => exact heq

theorem follow_of_given {c : Call} {uri text : String} (hgiven : c.givenText? = some (uri, text))
    (held : Option Holding) :
    follow delay maxSize u held (now, c) =
      if uri = u ∧ text.utf8ByteSize ≤ maxSize then some ⟨⟨u, some (.ofText text)⟩, none⟩
      else held := by
  unfold follow
  simp only [Call.acceptedText?, hgiven]
  split_ifs
  · rfl
  · cases c with
    | opened => rfl
    | changed => rfl
    | _ => cases hgiven

/-- A text that is taken over, or refused for its size. -/
theorem Tracks.update (h : Tracks delay maxSize clock history s) (hclock : clock ≤ now) {c : Call}
    {uri text : String} (hgiven : c.givenText? = some (uri, text)) (version : Int) :
    Tracks delay maxSize now (history ++ [(now, c)]) (s.update now uri version text).2 := by
  by_cases hsize : text.utf8ByteSize ≤ s.maxSize
  · obtain ⟨hmaxSize, hvalid, hdelay, hheld⟩ := update_of_le h.valid version hsize
    refine h.of_follow hclock c hvalid hdelay hmaxSize fun u later hlater => ?_
    rw [hheld, follow_of_given hgiven]
    by_cases huri : uri = u
    · simp [huri, ← h.maxSize_eq, hsize]
    · simp only [huri, if_false, false_and]
      exact Holding.filter_lasts_of_le hlater _
  · rw [update_of_lt version (by omega)]
    refine h.of_follow hclock c h.valid rfl rfl fun u later _ => ?_
    rw [follow_of_given hgiven, if_neg (by rw [← h.maxSize_eq]; omega)]

theorem Tracks.ask (h : Tracks delay maxSize clock history s) (hclock : clock ≤ now) {c : Call}
    (hc : ∀ u held, follow delay maxSize u held (now, c) = held) {request : Request}
    {answer : Document → Except AnalysisError Reply}
    (hanswer : ∀ number document, request.perform number document =
      (.returned (answer document), document)) (u : String) :
    Tracks delay maxSize now (history ++ [(now, c)]) (s.ask now u request).2 := by
  obtain ⟨r, hask, hvalid, hdelay, hheld⟩ := ask_spec h.valid now u hanswer
  rw [hask]
  refine h.of_follow hclock c hvalid hdelay rfl fun v later hlater => ?_
  rw [hheld, hc]
  exact Holding.filter_lasts_of_le hlater _

theorem Tracks.close (h : Tracks delay maxSize clock history s) (hclock : clock ≤ now)
    (uri : String) :
    Tracks delay maxSize now (history ++ [(now, .closed uri)]) (s.close now uri).2 := by
  obtain ⟨hvalid, hdelay, hheld⟩ := Registry.close_spec h.valid now uri
  refine h.of_follow hclock _ hvalid hdelay rfl fun u later hlater => ?_
  change ((s.registry.close now uri).2.held u).filter _ = _
  rw [hheld]
  by_cases huri : uri = u
  · subst huri
    rw [if_pos rfl, follow_closed rfl, Registry.filter_lasts_parkUntil hlater, h.delay_eq]
  · rw [if_neg huri, follow_other rfl (by simp) (by simpa using huri)]
    exact Holding.filter_lasts_of_le hlater _

theorem change_eq (s : Server) (now : Nat) (uri : String) (version : Int)
    (changes : List Change) :
    (s.change now uri version changes).2 =
      ((Call.changed uri version changes).givenText?).elim s fun given =>
        (s.update now given.1 version given.2).2 := by
  cases hpartial : changes.any Change.isPartial with
  | true => simp [change, Call.givenText?, hpartial]
  | false => cases hlast : changes.getLast? <;> simp [change, Call.givenText?, hpartial, hlast]

theorem Tracks.call (h : Tracks delay maxSize clock history s) (hclock : clock ≤ now) (c : Call) :
    Tracks delay maxSize now (history ++ [(now, c)]) (s.call now c).server := by
  -- Calls that touch no document.
  have hstay : (∀ u held, follow delay maxSize u held (now, c) = held) →
      Tracks delay maxSize now (history ++ [(now, c)]) s := by
    intro hc
    exact h.of_follow hclock c h.valid rfl rfl fun u later _ => by rw [hc]
  cases c with
  | handshake encodings => exact hstay fun _ _ => rfl
  | ready => exact hstay fun _ _ => rfl
  | saved uri => exact hstay fun _ _ => rfl
  | opened uri version text => exact h.update hclock rfl version
  | changed uri version changes =>
    have hserver : (s.call now (.changed uri version changes)).server =
        (s.change now uri version changes).2 := rfl
    rw [hserver, change_eq]
    cases hgiven : (Call.changed uri version changes).givenText? with
    | none => exact hstay fun u held => by simp [follow, Call.acceptedText?, hgiven]
    | some given => exact h.update hclock hgiven version
  | closed uri => exact h.close hclock uri
  | highlighting uri => exact h.ask hclock (fun _ _ => rfl) (fun _ _ => rfl) uri
  | declaration uri line character => exact h.ask hclock (fun _ _ => rfl) (fun _ _ => rfl) uri
  | shutdown =>
    obtain ⟨hvalid, hdelay, hheld⟩ := Registry.shutdownAll_spec h.valid
    refine h.of_follow hclock _ hvalid hdelay rfl fun u later _ => ?_
    change (s.registry.shutdownAll.held u).filter _ = _
    rw [hheld]
    rfl

theorem publish_eq (s : Server) (p : Publication) :
    (s.publish p).2 = { s with registry := (s.registry.await p.worker p.uri p.ticket).2 } := by
  unfold publish
  generalize s.registry.await p.worker p.uri p.ticket = awaited
  obtain ⟨result, registry⟩ := awaited
  cases result with
  | error cause => rfl
  | ok reply =>
    cases reply with
    | diagnostics found =>
      simp only
      split_ifs <;> rfl
    | _ => rfl

/-- However a session goes, the server holds on to its history. -/
theorem Session.tracks (h : Session delay maxSize clock history s) :
    Tracks delay maxSize clock history s := by
  induction h with
  | start => exact tracks_start delay maxSize
  | call _ hclock c ih => exact ih.call hclock c
  | @publish clock history s p _ _ ih =>
    obtain ⟨hvalid, hdelay, hheld⟩ :=
      Registry.await_frame ih.valid p.worker p.uri p.ticket
    rw [publish_eq]
    exact ih.of_held hvalid hdelay rfl hheld
  | work _ worker ih =>
    obtain ⟨hvalid, hheld⟩ := Registry.update_frame ih.valid worker Worker.step fun w _ hserving =>
      ⟨hserving.step, Worker.foreseen_step hserving⟩
    exact ih.of_held hvalid rfl rfl hheld

/-- Carrying out publications in turn, as the server does once a call is answered. -/
theorem Session.publishAll {ps : List Publication}
    (h : Session delay maxSize clock history { s with pending := ps }) :
    Session delay maxSize clock history (publishAll ps { s with pending := [] }).2 := by
  induction ps generalizing s with
  | nil => exact h
  | cons p ps ih =>
    have hnext := h.publish (p := p) List.mem_cons_self
    rw [publish_eq, List.erase_cons_head] at hnext
    have hrest := ih (s := { s with
      registry := (s.registry.await p.worker p.uri p.ticket).2 }) hnext
    have heq : (({ s with pending := [] } : Server).publish p).2 =
        { s with
          registry := (s.registry.await p.worker p.uri p.ticket).2
          pending := [] } := publish_eq _ p
    rw [← heq] at hrest
    exact hrest

/-- A call that is answered and whose publications are carried out leads on. -/
theorem Session.serve (h : Session delay maxSize clock history s) (hclock : clock ≤ now)
    (c : Call) : Session delay maxSize now (history ++ [(now, c)]) (s.serve now c).server :=
  Session.publishAll (h.call hclock c)

/-- The response to a question passes on what the document held for it answers. -/
theorem respond_ask (h : Session delay maxSize clock history s) (hclock : clock ≤ now)
    {request : Request} (answer : Document → Except AnalysisError Reply)
    (hanswer : ∀ number document, request.perform number document =
      (.returned (answer document), document)) (u : String) :
    respond (s.ask now u request).1 =
      ((known delay maxSize u history).filter (Holding.lasts now)).elim
        (.refused ⟨.notReady, u⟩) fun held => respond (answer held.document) := by
  obtain ⟨r, hask, _⟩ := ask_spec h.tracks.valid now u hanswer
  rw [hask, h.tracks.held u now hclock]
  cases (known delay maxSize u history).filter (Holding.lasts now) <;> rfl

section Answers

variable (h : Session delay maxSize clock history s) (hclock : clock ≤ now)
include h hclock

theorem respond_highlighting (u : String) :
    (s.call now (.highlighting u)).response =
      ((known delay maxSize u history).filter (Holding.lasts now)).elim
        (.refused ⟨.notReady, u⟩) fun held =>
          respond (held.document.highlighting.map (.deltas ∘ Highlight.Delta.ofNumbers)) :=
  respond_ask h hclock (fun document =>
    document.highlighting.map (.deltas ∘ Highlight.Delta.ofNumbers)) (fun _ _ => rfl) u

theorem respond_declaration (u : String) (line character : Nat) :
    (s.call now (.declaration u line character)).response =
      ((known delay maxSize u history).filter (Holding.lasts now)).elim
        (.refused ⟨.notReady, u⟩) fun held =>
          respond ((held.document.declaration line character).map .locations) :=
  respond_ask h hclock (fun document =>
    (document.declaration line character).map .locations) (fun _ _ => rfl) u

theorem respond_of_current {u text : String} (hcurrent : Current delay maxSize history now u text) :
    (s.call now (.highlighting u)).response =
        .highlighting (Highlight.Delta.ofNumbers (Parsed.ofText text).highlighting) ∧
      ∀ line character, (s.call now (.declaration u line character)).response =
        .locations (((Parsed.ofText text).declarationsAt line character).map (⟨u, ·⟩)) := by
  obtain ⟨due, hknown⟩ := filter_known_of_current hcurrent
  refine ⟨?_, fun line character => ?_⟩
  · rw [respond_highlighting h hclock, hknown]
    rfl
  · rw [respond_declaration h hclock, hknown]
    rfl

theorem respond_of_not_current {u : String}
    (hnone : ∀ text, ¬ Current delay maxSize history now u text) :
    (s.call now (.highlighting u)).response = .refused ⟨.notReady, u⟩ ∧
      ∀ line character, (s.call now (.declaration u line character)).response =
        .refused ⟨.notReady, u⟩ := by
  have hknown := filter_known_of_not_current hnone
  refine ⟨?_, fun line character => ?_⟩
  · rw [respond_highlighting h hclock, hknown]
    rfl
  · rw [respond_declaration h hclock, hknown]
    rfl

end Answers

/-- In every session, questions about a document are answered from the text taken over last, as long
as the document is not forgotten; any other document is not ready. -/
theorem Session.answers (h : Session delay maxSize clock history s) (hclock : clock ≤ now) :
    (∀ u text, Current delay maxSize history now u text →
      (s.call now (.highlighting u)).response =
          .highlighting (Highlight.Delta.ofNumbers (Parsed.ofText text).highlighting) ∧
        ∀ line character, (s.call now (.declaration u line character)).response =
          .locations (((Parsed.ofText text).declarationsAt line character).map (⟨u, ·⟩))) ∧
    (∀ u, (∀ text, ¬ Current delay maxSize history now u text) →
      (s.call now (.highlighting u)).response = .refused ⟨.notReady, u⟩ ∧
        ∀ line character, (s.call now (.declaration u line character)).response =
          .refused ⟨.notReady, u⟩) ∧
    ∀ c cause, (s.call now c).response = .refused cause → cause.refusal = .notReady := by
  refine ⟨fun u text => respond_of_current h hclock, fun u => respond_of_not_current h hclock,
    fun c cause hc => ?_⟩
  cases c with
  | highlighting u =>
    by_cases hcurrent : ∃ text, Current delay maxSize history now u text
    · obtain ⟨text, hcurrent⟩ := hcurrent
      rw [(respond_of_current h hclock hcurrent).1] at hc
      cases hc
    · rw [(respond_of_not_current h hclock (not_exists.mp hcurrent)).1] at hc
      cases hc
      rfl
  | declaration u line character =>
    by_cases hcurrent : ∃ text, Current delay maxSize history now u text
    · obtain ⟨text, hcurrent⟩ := hcurrent
      rw [(respond_of_current h hclock hcurrent).2] at hc
      cases hc
    · rw [(respond_of_not_current h hclock (not_exists.mp hcurrent)).2] at hc
      cases hc
      rfl
  | _ => cases hc

theorem answers_after_closing :
    (((((Server.start 10 100).serve 0 (.opened "logo:a" 1 "fd :x")).server.serve 1
      (.opened "logo:b" 1 "make \"x 1\nfd :x")).server.serve 2 (.closed "logo:b")).server.call 9
        (.declaration "logo:b" 1 4)).response = .locations [⟨"logo:b", ⟨0, 5, 7⟩⟩] := by
  have h : Session 10 100 2 _ _ :=
    ((Session.start.serve (Nat.zero_le 0) (.opened "logo:a" 1 "fd :x")).serve (Nat.zero_le 1)
      (.opened "logo:b" 1 "make \"x 1\nfd :x")).serve (by decide) (.closed "logo:b")
  have hcurrent : Current 10 100 _ 9 "logo:b" "make \"x 1\nfd :x" :=
    ⟨[(0, .opened "logo:a" 1 "fd :x")], 1, .opened "logo:b" 1 "make \"x 1\nfd :x",
      [(2, .closed "logo:b")], rfl, by decide, by decide, by decide⟩
  rw [((Session.answers h (by decide)).1 "logo:b" _ hcurrent).2]
  decide +kernel

end Server

end LogoServer
