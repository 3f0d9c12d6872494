import LogoServer.Proofs.Parser.Parentheses

/-! What a parse built without a complaint is built again from the tokens that are written for it.
A layout tells which tokens these are and what may stand behind them; layouts follow the sequencing
of parsers as accounts do. The nesting levels left are the same in both runs, so that none is ever
wanting. -/
namespace LogoServer.Parser

open Grammar

variable {α β : Type}

theorem eq_flatMap_of_each {R : α → List Token → Prop} {f : α → List Token}
    (hR : ∀ a ts, R a ts → ts = f a) {as : List α} {ts : List Token} (h : Each R as ts) :
    ts = as.flatMap f := by
  induction h with
  | nil => rfl
  | cons head _ ih => rw [List.flatMap_cons, ← hR _ _ head, ← ih]

/-- The kind of the first of the tokens, or that of the mark of the end. -/
def nextKind (ts : List Token) : Kind :=
  (ts.head?.map fun t => t.kind).getD .eof

@[simp] theorem nextKind_nil : nextKind [] = .eof := rfl

@[simp] theorem nextKind_cons (t : Token) (ts : List Token) : nextKind (t :: ts) = t.kind := rfl

/-- What stands behind tokens does not tell how they start. -/
theorem nextKind_append {test : Kind → Bool} (heof : test .eof = false) {ts : List Token}
    (h : test (nextKind ts) = true) (us : List Token) : nextKind (ts ++ us) = nextKind ts := by
  cases ts with
  | nil => exact absurd h (by simp [heof])
  | cons t ts => rfl

/-- Nothing is wrong so far, and these tokens are ahead. -/
structure Clear (s : State) (ahead : List Token) : Prop where
  sound : s.Sound
  errors : s.errors = []
  rest : s.rest = ahead

namespace Clear

variable {s : State} {t : Token} {ts : List Token}

theorem kind (h : Clear s ts) : s.current.kind = nextKind ts := by
  unfold State.current
  rw [h.rest]
  cases ts with
  | nil => exact h.sound.eof_kind
  | cons t ts => rfl

theorem current (h : Clear s (t :: ts)) : s.current = t := by
  unfold State.current
  rw [h.rest]
  rfl

theorem take (h : Clear s (t :: ts)) : Clear (outcome take s).2 ts := by
  have heq : (outcome Parser.take s).2 = s.afterTaking t ts := by
    change State.mk _ _ _ _ _ _ = State.mk _ _ _ _ _ _
    rw [h.current, h.rest]
    rfl
  rw [heq]
  refine ⟨Passage.sound (.take h.rest (.stay _)) h.sound, ?_, rfl⟩
  rw [State.errors_afterTaking]
  exact h.errors

theorem mark (h : Clear s ts) (note : Note) (htoken : note.token? = none)
    (herror : note.error? = none) : Clear (s.afterMarking note) ts :=
  ⟨(mark_passage note htoken herror s).sound h.sound,
    (State.errors_afterMarking s herror).trans h.errors, h.rest⟩

end Clear

/-- The parser builds `a` from the tokens, whatever stands behind them and may follow. -/
def Rebuilds (q : Parser α) (a : α) (ts : List Token) (follows : Kind → Prop) : Prop :=
  ∀ (s : State) (us : List Token), Clear s (ts ++ us) → follows (nextKind us) →
    (outcome q s).1 = a ∧ Clear (outcome q s).2 us

/-- How what is built is written, and what may stand behind it. -/
structure Layout (α : Type) where
  spells : α → List Token → Prop
  follows : α → Kind → Prop

/-- What the first parser builds without a complaint, the second one builds from the tokens that are
written for it. -/
structure Restores (start : Kind → Prop) (p q : Parser α) (L : Layout α) : Prop where
  passes : ∀ s : State, s.Sound → start s.current.kind → ∃ notes, Passage s notes (outcome p s).2
  restores : ∀ s : State, s.Sound → start s.current.kind → (outcome p s).2.errors = [] →
    ∃ ts, L.spells (outcome p s).1 ts ∧
      Rebuilds q (outcome p s).1 ts (L.follows (outcome p s).1)

namespace Restores

variable {start : Kind → Prop} {p q : Parser α} {L : Layout α}

theorem of_start {start' : Kind → Prop} (h : Restores start p q L)
    (hstart : ∀ k, start' k → start k) : Restores start' p q L :=
  ⟨fun s hs hk => h.passes s hs (hstart _ hk), fun s hs hk => h.restores s hs (hstart _ hk)⟩

theorem mono {M : Layout α} (h : Restores start p q L)
    (hspells : ∀ a ts, L.spells a ts → M.spells a ts)
    (hfollows : ∀ a k, M.follows a k → L.follows a k) : Restores start p q M := by
  refine ⟨h.passes, fun s hs hk hclean => ?_⟩
  obtain ⟨ts, hts, hrebuilds⟩ := h.restores s hs hk hclean
  refine ⟨ts, hspells _ _ hts, fun s' us hclear hus => ?_⟩
  exact hrebuilds s' us hclear (hfollows _ _ hus)

/-- The second parser may be replaced by one that does the same before the tokens written. -/
theorem redirect {q' : Parser α} (h : Restores start p q L)
    (hq : ∀ a ts s us, L.spells a ts → Clear s (ts ++ us) → outcome q' s = outcome q s) :
    Restores start p q' L := by
  refine ⟨h.passes, fun s hs hk hclean => ?_⟩
  obtain ⟨ts, hts, hrebuilds⟩ := h.restores s hs hk hclean
  refine ⟨ts, hts, fun s' us hclear hus => ?_⟩
  rw [hq _ _ s' us hts hclear]
  exact hrebuilds s' us hclear hus

/-- It is enough that they do the same before the kinds with which the tokens written start. -/
theorem redirect_of_kind {q' : Parser α} (h : Restores start p q L) (starts : Kind → Prop)
    (heof : ¬ starts .eof) (hspells : ∀ a ts, L.spells a ts → starts (nextKind ts))
    (hq : ∀ s, starts s.current.kind → outcome q' s = outcome q s) : Restores start p q' L := by
  refine h.redirect fun a ts s us hts hclear => hq s ?_
  have hstarts := hspells a ts hts
  cases ts with
  | nil => exact absurd hstarts heof
  | cons t ts =>
    rw [hclear.kind]
    exact hstarts

theorem pure (start : Kind → Prop) (a : α) (follows : α → Kind → Prop) :
    Restores start (Pure.pure a) (Pure.pure a) ⟨fun b ts => b = a ∧ ts = [], follows⟩ := by
  refine ⟨fun s _ _ => ⟨[], .stay s⟩, fun s _ _ _ => ⟨[], ⟨rfl, rfl⟩, fun s' us hclear _ => ?_⟩⟩
  exact ⟨rfl, hclear⟩

/-- What is written for the second part, and what stands behind that, follows the first part. -/
theorem bind {f g : α → Parser β} {spells : α → β → List Token → Prop} {follows : β → Kind → Prop}
    (hp : Restores start p q L) (hf : ∀ a, Restores anyKind (f a) (g a) ⟨spells a, follows⟩)
    (hfollows : ∀ a b ts us, spells a b ts → follows b (nextKind us) →
      L.follows a (nextKind (ts ++ us))) :
    Restores start (p >>= f) (q >>= g)
      ⟨fun b ts => ∃ a us vs, ts = us ++ vs ∧ L.spells a us ∧ spells a b vs, follows⟩ where
  passes s hs hk := by
    obtain ⟨ns, hns⟩ := hp.passes s hs hk
    obtain ⟨ms, hms⟩ := (hf (outcome p s).1).passes _ (hns.sound hs) trivial
    exact ⟨ns ++ ms, hns.trans hms⟩
  restores s hs hk hclean := by
    obtain ⟨ns, hns⟩ := hp.passes s hs hk
    obtain ⟨ms, hms⟩ := (hf (outcome p s).1).passes _ (hns.sound hs) trivial
    obtain ⟨ts, hts, hfirst⟩ := hp.restores s hs hk (hms.errors_eq_nil hclean)
    obtain ⟨us, hus, hsecond⟩ := (hf (outcome p s).1).restores _ (hns.sound hs) trivial hclean
    refine ⟨ts ++ us, ⟨_, ts, us, rfl, hts, hus⟩, fun s' vs hclear hvs => ?_⟩
    rw [List.append_assoc] at hclear
    obtain ⟨hbuilt, hclear'⟩ := hfirst s' (us ++ vs) hclear (hfollows _ _ us vs hus hvs)
    rw [outcome_bind, hbuilt]
    exact hsecond _ vs hclear' hvs

theorem map {f : α → β} {M : Layout β} (hp : Restores start p q L)
    (hspells : ∀ a ts, L.spells a ts → M.spells (f a) ts)
    (hfollows : ∀ a k, M.follows (f a) k → L.follows a k) :
    Restores start (do return f (← p)) (do return f (← q)) M := by
  refine (hp.bind (fun a => Restores.pure _ (f a) M.follows) ?_).mono ?_ fun _ _ => id
  · rintro a b _ us ⟨rfl, rfl⟩ hus
    exact hfollows a _ hus
  · rintro _ _ ⟨a, ts, _, rfl, hts, rfl, rfl⟩
    rw [List.append_nil]
    exact hspells a ts hts

theorem nested (hp : Restores start p q L) : Restores start (nested p) (nested q) L where
  passes s hs hk := by
    have henter := mark_passage .entered rfl rfl s
    obtain ⟨notes, hpassage⟩ := hp.passes (s.afterMarking .entered) (henter.sound hs) hk
    exact ⟨_, henter.trans (hpassage.trans (mark_passage .left rfl rfl _))⟩
  restores s hs hk hclean := by
    have henter := mark_passage .entered rfl rfl s
    have hleave := mark_passage .left rfl rfl (outcome p (s.afterMarking .entered)).2
    obtain ⟨ts, hts, hrebuilds⟩ := hp.restores _ (henter.sound hs) hk
      (hleave.errors_eq_nil hclean)
    refine ⟨ts, hts, fun s' us hclear hus => ?_⟩
    obtain ⟨hbuilt, hclear'⟩ := hrebuilds _ us (hclear.mark .entered rfl rfl) hus
    exact ⟨hbuilt, hclear'.mark .left rfl rfl⟩

/-- Nothing has to be restored of a parser that always complains. -/
theorem of_never {A : Account α} (hreads : Reads start p A) (hnever : ∀ a ts, ¬ A.clean a ts) :
    Restores start p q L where
  passes := hreads.passes
  restores s hs hk hclean := by
    obtain ⟨_, _, _, hbuilt⟩ := hreads s hs hk
    exact absurd (hbuilt hclean) (hnever _ _)

theorem of_astray (h : ∀ s, Astray s (outcome p s).2) : Restores start p q L :=
  of_never (A := ⟨fun _ _ => True, fun _ _ => False⟩)
    (.of_astray (fun s _ => h s) fun _ => trivial) fun _ _ => id

theorem reads (h : Restores start p q L) :
    Reads start p (.both fun _ _ => True) := by
  intro s hs hk
  obtain ⟨notes, hpassage⟩ := h.passes s hs hk
  exact ⟨notes, hpassage, trivial, fun _ => trivial⟩

theorem currentKind_bind {f : Kind → Parser α} (h : ∀ k, start k → Restores (· = k) (f k) q L) :
    Restores start (currentKind >>= f) q L :=
  ⟨fun s hs hk => (h _ hk).passes s hs rfl, fun s hs hk => (h _ hk).restores s hs rfl⟩

end Restores

/-! ### Single tokens -/

/-- A token of the kind, written as it stands. -/
def Layout.token (kind : Kind) : Layout Token :=
  ⟨fun t ts => t.kind = kind ∧ ts = [t], fun _ _ => True⟩

/-- A token that is there. -/
def Layout.present (kind : Kind) : Layout (Option Token) :=
  ⟨fun found ts => ∃ t, t.kind = kind ∧ found = some t ∧ ts = [t], fun _ _ => True⟩

theorem take_restores {kind : Kind} (hkind : kind ≠ .eof) :
    Restores (· = kind) take take (.token kind) where
  passes := (take_reads (· = kind) hkind.symm).passes
  restores s _ hk _ := by
    refine ⟨[s.current], ⟨hk, rfl⟩, fun s' us hclear _ => ?_⟩
    exact ⟨hclear.current, hclear.take⟩

theorem outcome_expect_of_kind {kind : Kind} {s : State} (h : s.current.kind = kind) :
    outcome (expect kind) s = (some s.current, (outcome take s).2) := by
  rw [outcome_expect, if_pos h]

theorem expect_restores {kind : Kind} (hkind : kind ≠ .eof) :
    Restores anyKind (expect kind) (expect kind) (.present kind) where
  passes := (expect_reads hkind).passes
  restores s hs _ hclean := by
    have hk := kind_of_expect hs hclean
    rw [outcome_expect_of_kind hk]
    refine ⟨[s.current], ⟨s.current, hk, rfl, rfl⟩, fun s' us hclear _ => ?_⟩
    have hcurrent : s'.current = s.current := hclear.current
    rw [outcome_expect_of_kind (hcurrent ▸ hk), hcurrent]
    exact ⟨rfl, hclear.take⟩

section Structural

variable {p q : Parser α} {spells : α → List Token → Prop} {follows : α → Kind → Prop} {mark : Token}
  (hmark : mark.kind ≠ .eof) (hp : Restores anyKind p q ⟨spells, follows⟩)
include hmark hp

/-- What is built behind a token that is not kept; any token of its kind may be written for it. -/
theorem take_bind_restores :
    Restores (· = mark.kind) (take >>= fun _ => p) (take >>= fun _ => q)
      ⟨fun a ts => ∃ us, ts = mark :: us ∧ spells a us, follows⟩ where
  passes s hs hk := by
    have htake := take_passage hs (hk ▸ hmark)
    obtain ⟨ms, hms⟩ := hp.passes _ (htake.sound hs) trivial
    exact ⟨_, htake.trans hms⟩
  restores s hs hk hclean := by
    have htake := take_passage hs (hk ▸ hmark)
    obtain ⟨us, hus, hrebuilds⟩ := hp.restores _ (htake.sound hs) trivial hclean
    exact ⟨mark :: us, ⟨us, rfl, hus⟩, fun s' vs hclear => hrebuilds _ vs hclear.take⟩

theorem expect_bind_restores :
    Restores anyKind (expect mark.kind >>= fun _ => p) (expect mark.kind >>= fun _ => q)
      ⟨fun a ts => ∃ us, ts = mark :: us ∧ spells a us, follows⟩ where
  passes s hs _ := by
    obtain ⟨ns, hns⟩ := (expect_reads hmark).passes s hs trivial
    obtain ⟨ms, hms⟩ := hp.passes _ (hns.sound hs) trivial
    exact ⟨ns ++ ms, hns.trans hms⟩
  restores s hs _ hclean := by
    obtain ⟨ns, hns⟩ := (expect_reads hmark).passes s hs trivial
    obtain ⟨us, hus, hrebuilds⟩ := hp.restores _ (hns.sound hs) trivial hclean
    refine ⟨mark :: us, ⟨us, rfl, hus⟩, fun s' vs hclear => ?_⟩
    have hkind : s'.current.kind = mark.kind := hclear.kind
    have hq : outcome (expect mark.kind >>= fun _ => q) s' = outcome q (outcome take s').2 := by
      rw [outcome_bind, outcome_expect_of_kind hkind]
    rw [hq]
    exact hrebuilds _ vs hclear.take

end Structural

/-! ### Repetition -/

section Turns

variable {more : Kind → Bool} {item item' : Parser α} {L : Layout α}

/-- Turns are restored one by one; before each further one stands what starts it. -/
theorem Turns.restore (hitem : Restores (more · = true) item item' L)
    (heof : more .eof = false) (hopens : ∀ a ts, L.spells a ts → more (nextKind ts) = true)
    (hnext : ∀ a k, more k = true → L.follows a k) {s t : State} {as : List α}
    (h : Turns more item s as t) (hs : s.Sound) (hclean : t.errors = []) :
    ∃ ts, Each L.spells as ts ∧ ∀ (s' : State) (us : List Token), Clear s' (ts ++ us) →
      (∀ a ∈ as.getLast?, L.follows a (nextKind us)) →
      ∃ t', Turns more item' s' as t' ∧ Clear t' us := by
  induction h with
  | done s => exact ⟨[], .nil, fun s' us hclear _ => ⟨s', .done s', hclear⟩⟩
  | @turn s t as hmore h ih =>
    obtain ⟨ns, hns⟩ := hitem.passes s hs hmore
    obtain ⟨ms, hms⟩ := h.passes hitem.reads (hns.sound hs)
    obtain ⟨ts, hts, hrebuilds⟩ := hitem.restores s hs hmore (hms.errors_eq_nil hclean)
    obtain ⟨us, hus, hrest⟩ := ih (hns.sound hs) hclean
    refine ⟨ts ++ us, .cons hts hus, fun s' vs hclear hlast => ?_⟩
    have hmore' : more s'.current.kind = true := by
      rw [hclear.kind, List.append_assoc, nextKind_append heof (hopens _ ts hts)]
      exact hopens _ ts hts
    rw [List.append_assoc] at hclear
    -- Behind this turn stands the next one, or what stands behind the last one.
    have hfollows : L.follows (outcome item s).1 (nextKind (us ++ vs)) := by
      cases hus with
      | nil => exact hlast _ rfl
      | cons hhead _ =>
        rw [List.append_assoc, nextKind_append heof (hopens _ _ hhead)]
        exact hnext _ _ (hopens _ _ hhead)
    obtain ⟨hbuilt, hclear'⟩ := hrebuilds s' (us ++ vs) hclear hfollows
    obtain ⟨t', hturns, ht'⟩ := hrest _ vs hclear' fun a ha => by
      refine hlast a ?_
      rw [Option.mem_def] at ha ⊢
      rw [List.getLast?_cons, ha]
      rfl
    refine ⟨t', ?_, ht'⟩
    rw [← hbuilt]
    exact .turn hmore' hturns

/-- What is built of the last turn fits the state in which the turns end. -/
theorem Turns.last {P : α → State → Prop}
    (hP : ∀ s, s.Sound → more s.current.kind = true → (outcome item s).2.errors = [] →
      P (outcome item s).1 (outcome item s).2)
    {A : Account α} (hreads : Reads (more · = true) item A) {s t : State} {as : List α}
    (h : Turns more item s as t) (hs : s.Sound) (hclean : t.errors = []) :
    ∀ a ∈ as.getLast?, P a t := by
  induction h with
  | done s => simp
  | @turn s t as hmore h ih =>
    obtain ⟨ns, hns⟩ := hreads.passes s hs hmore
    intro a ha
    cases h with
    | done =>
      obtain rfl : (outcome item s).1 = a := by simpa using ha
      exact hP s hs hmore hclean
    | turn hmore' h' =>
      refine ih (hns.sound hs) hclean a ?_
      simpa [List.getLast?_cons] using ha

/-- No item is written with less than one token. -/
theorem length_le_of_each (heof : more .eof = false)
    (hopens : ∀ a ts, L.spells a ts → more (nextKind ts) = true) {as : List α} {ts : List Token}
    (h : Each L.spells as ts) : as.length ≤ ts.length := by
  induction h with
  | nil => exact le_rfl
  | @cons a as ts us head _ ih =>
    have hpos : 0 < ts.length := by
      refine List.length_pos_iff.mpr ?_
      rintro rfl
      exact absurd (hopens a [] head) (by simp [heof])
    rw [List.length_append, List.length_cons]
    omega

/-- Items that were repeated, by whatever loop, are repeated while they start. -/
theorem rebuilds_many (hitem : Restores (more · = true) item item' L) (heof : more .eof = false)
    (hopens : ∀ a ts, L.spells a ts → more (nextKind ts) = true)
    (hnext : ∀ a k, more k = true → L.follows a k) {s t : State} {as : List α}
    (h : Turns more item s as t) (hs : s.Sound) (hclean : t.errors = []) :
    ∃ ts, Each L.spells as ts ∧ Rebuilds (many more item') as ts
      fun k => more k = false ∧ ∀ a ∈ as.getLast?, L.follows a k := by
  obtain ⟨ts, hts, hturns⟩ := h.restore hitem heof hopens hnext hs hclean
  refine ⟨ts, hts, fun s' us hclear ⟨hstop, hlast⟩ => ?_⟩
  obtain ⟨t', hturns', hclear'⟩ := hturns s' us hclear hlast
  have hlength : as.length ≤ s'.rest.length := by
    have hle := length_le_of_each heof hopens hts
    rw [hclear.rest, List.length_append]
    omega
  have hcollect := collect_of_turns hturns' s'.rest [] hlength fun _ => by
    rw [hclear'.kind]
    exact hstop
  change (outcome (collect more item' s'.rest []) s').1 = as ∧
    Clear (outcome (collect more item' s'.rest []) s').2 us
  rw [hcollect]
  exact ⟨rfl, hclear'⟩

theorem many_restores (hitem : Restores (more · = true) item item' L) (heof : more .eof = false)
    (hopens : ∀ a ts, L.spells a ts → more (nextKind ts) = true)
    (hnext : ∀ a k, more k = true → L.follows a k) :
    Restores anyKind (many more item) (many more item')
      ⟨Each L.spells, fun as k => more k = false ∧ ∀ a ∈ as.getLast?, L.follows a k⟩ where
  passes := (many_reads hitem.reads).passes
  restores s hs _ hclean := by
    obtain ⟨as, hbuilt, hturns, _, _⟩ := collect_turns more item s.rest [] s
    have hbuilt' : (outcome (many more item) s).1 = as := hbuilt
    rw [hbuilt']
    exact rebuilds_many hitem heof hopens hnext hturns hs hclean

end Turns

end LogoServer.Parser
