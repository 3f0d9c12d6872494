import LogoServer.Server.Basic
import LogoServer.Proofs.Registry.Operations
import Mathlib.Tactic

/-! How a call to the server changes what its registry holds. -/
namespace LogoServer.Server

open Registry (parkUntil)

variable {s : Server} {u v : String} {now : Nat}

/-- A document that is held answers from what it will read as, any other is not ready; a question
changes nothing that is held. -/
theorem ask_spec (hs : s.registry.Valid) (now : Nat) (u : String) {request : Request}
    {answer : Document → Except AnalysisError Reply}
    (hanswer : ∀ number document, request.perform number document =
      (.returned (answer document), document)) :
    ∃ r : Registry,
      s.ask now u request =
          (((s.registry.held u).filter (Holding.lasts now)).elim (.error ⟨.notReady, u⟩)
            fun h => answer h.document, { s with registry := r }) ∧
        r.Valid ∧ r.delay = s.registry.delay ∧
        ∀ v, r.held v = (s.registry.held v).filter (Holding.lasts now) := by
  obtain ⟨hvalid, hdelay, hheld⟩ := Registry.cleanUp_spec hs now
  simp only [← hheld]
  generalize hclean : s.registry.cleanUp now = r at *
  unfold ask
  rw [Registry.find_eq, hclean]
  cases hassigned : r.assigned? u with
  | none =>
    rw [Registry.held_eq_none hassigned]
    exact ⟨r, rfl, hvalid, hdelay, fun _ => rfl⟩
  | some e =>
    obtain ⟨n, due⟩ := e
    obtain ⟨w, hw, hserving, _⟩ := hvalid.serving u n due hassigned
    obtain ⟨w', hsubmit, hserving', hforeseen, hvalid', hheld'⟩ :=
      Registry.submit_spec hvalid hassigned hw request
    have hw' : (r.update n fun _ => w').workers[n]? = some w' := by
      simp [Registry.update, Array.getElem?_modify, hw]
    have hresult : w'.settle.result w.accepted = answer w.foreseen.1 :=
      Worker.result_settle hserving' hforeseen (by rw [hanswer])
    obtain ⟨hvalid'', hdelay'', hheld''⟩ := Registry.await_frame hvalid' n u w.accepted
    refine ⟨_, ?_, hvalid'', hdelay''.trans hdelay, fun v => ?_⟩
    · rw [Registry.held_of_assigned? hassigned hw]
      simp only [Option.map_some, hsubmit, Registry.await, hw', hresult, Option.elim_some]
    · rw [hheld'', hheld', hanswer]
      split_ifs with huv
      · rw [← huv, Registry.held_of_assigned? hassigned hw]
      · rfl

theorem update_eq {r r' : Registry} {text : String} {n ticket : Nat} (version : Int)
    (hsize : text.utf8ByteSize ≤ s.maxSize) (hacquire : s.registry.acquire now u = (.ok n, r))
    (hsubmit : r.submit n u (.setText text) = .ok (ticket, r')) :
    (s.update now u version text).2 =
      { s with
        versions := s.versions.insert u version
        registry := r'
        pending := s.pending ++ [⟨u, version, n, ticket⟩] } := by
  unfold update
  rw [if_neg (by omega)]
  simp only [hacquire, hsubmit]

/-- A text that is taken over is what its document will read as. -/
theorem update_of_le (hs : s.registry.Valid) {text : String} (version : Int)
    (hsize : text.utf8ByteSize ≤ s.maxSize) :
    (s.update now u version text).2.maxSize = s.maxSize ∧
      (s.update now u version text).2.registry.Valid ∧
      (s.update now u version text).2.registry.delay = s.registry.delay ∧
      ∀ v, (s.update now u version text).2.registry.held v =
        if u = v then some ⟨⟨u, some (.ofText text)⟩, none⟩
        else (s.registry.held v).filter (Holding.lasts now) := by
  obtain ⟨n, r, hacquire, hvalid, hdelay, hassigned, hheld⟩ := Registry.acquire_spec hs now u
  obtain ⟨w, hw, hserving, huri⟩ := hvalid.serving u n none hassigned
  obtain ⟨w', hsubmit, _, _, hvalid', hheld'⟩ :=
    Registry.submit_spec hvalid hassigned hw (.setText text)
  rw [update_eq version hsize hacquire hsubmit]
  refine ⟨rfl, hvalid', hdelay, fun v => ?_⟩
  rw [hheld']
  split_ifs with huv
  · have huri' : w.foreseen.1.uri = u := (Worker.uri_foreseen w).trans huri
    simp [Request.perform, Document.setText, huri']
  · exact hheld v huv

theorem update_of_lt {text : String} (version : Int) (hsize : s.maxSize < text.utf8ByteSize) :
    (s.update now u version text).2 = s := by
  unfold update
  rw [if_pos hsize]

end LogoServer.Server
