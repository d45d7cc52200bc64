/-
Questbook/Proofs/Engine/Waiting.lean

Between commands, conversations wait at a choice.

Content of the built-in keywords asks for no conversations, so that a session changes by the
requests of its own player only.  Whatever such a request comes to, it leaves no session, or one
that shows a line and waits for a reply.

Main result: `waits_at_choice`.
-/
import Questbook.Proofs.Engine.Choice
import Questbook.Proofs.Package.Evaluate

namespace Questbook

open Talks

variable {levels : Nat} {p : PlayerId} {A : Set Demand} {K : Packages}

namespace Engine

variable {e e' : Engine} {c : Command} {answer : c.Answer}

/-- A player's session stays as it is but for his own requests to talk. -/
theorem seat_of_perform (he : e.Authored A Conversation.Closed K)
    (hK : K.Authored A Conversation.Closed) (htalk : ∀ r, .request r ∈ A → r.ofTalk = false)
    (hc : ∀ r, c = .request p r → r.ofTalk = false) (h : e.perform levels c = .ok (answer, e')) :
    e'.sessions.find? p = e.sessions.find? p := by
  rcases c.mode_cases with ⟨records, rfl⟩ | ⟨packages, rfl⟩ | ⟨hmode, -⟩
  · have hkeeps : (Objectives.restore records).Keeps (fun e' => e'.sessions = e.sessions)
        fun _ => True :=
      Objectives.restore_keeps (fun _ _ he _ _ => (sessions_enter _ _ _ _ _).trans he) records
    exact congrArg (·.find? p) (hkeeps.of_run rfl h)
  · have hreload : ∀ q, KeptByReload q packages fun e' => e'.sessions = e.sessions := fun _ =>
      ⟨fun he _ _ => he, fun he _ _ _ => he, fun _ he => he⟩
    have hkeeps : (Objectives.reconcile packages).Keeps (fun e' => e'.sessions = e.sessions)
        fun _ => True := Objectives.reconcile_keeps hreload
    exact congrArg (·.find? p) (hkeeps.of_run (e := { e with packages }) rfl h)
  · have hgoals : ∀ q, KeptByGoals (nested levels) q A true K
        (Seated A K p (e.sessions.find? p)) fun _ => True := fun q =>
      (seated_keptByAll hK q).keptByGoals htalk trivial trivial levels ()
    have hrequest : ∀ q r, c = .request q r →
        (r.answer (nested levels) q).Keeps (Seated A K p (e.sessions.find? p)) fun _ => True := by
      intro q r hcr
      by_cases hquiet : r.ofTalk = false
      · exact r.answer_keeps_of_quiet (hgoals q) hquiet
      · have hne : q ≠ p := by
          rintro rfl
          exact hquiet (hc r hcr)
        exact r.answer_keeps ⟨hgoals q, (seated_keptByTalk hK hne).scenes (hgoals q).content⟩
    have hhost : KeptByHost A true K (Seated A K p (e.sessions.find? p)) fun _ => True :=
      seated_keptByHost hK
    have hkeeps := c.perform_keeps_of_request hhost.toKeptByTime hgoals
      (fun event _ => seated_keptByDeferral event.player) hrequest
      (fun f _ => hhost.keeps_changeWorld f)
      (fun records hc => by subst hc; cases hmode) fun packages hc => by subst hc; cases hmode
    exact (hkeeps.of_run ⟨he, rfl⟩ h).seat

/-! ### Runs -/

/-- The request of a run that has shown what a session shows: from where it began to follow the
pointers, and the session that it left, but for the page. -/
def Occasion (levels : Nat) (e₀ : Engine) (cs : List Command) (p : PlayerId) (session : Session)
    (scene : Scene) : Prop :=
  ∃ before r after e₁ pointers e₂ answer e₃ screen,
    cs = before ++ .request p r :: after ∧ performAll levels before e₀ = .ok e₁ ∧
    Begins (nested levels) p e₁ r session.talk pointers e₂ ∧
    Shown (nested levels) p session.talk pointers e₂ scene ∧
    e₁.perform levels (.request p r) = .ok (answer, e₃) ∧
    e₃.sessions.find? p = some { session with screen }

theorem Occasion.concat {e₀ : Engine} {cs : List Command} {session : Session} {scene : Scene}
    (h : Occasion levels e₀ cs p session scene) (c : Command) :
    Occasion levels e₀ (cs ++ [c]) p session scene := by
  obtain ⟨before, r, after, e₁, pointers, e₂, answer, e₃, screen, rfl, hrest⟩ := h
  refine ⟨before, r, after ++ [c], e₁, pointers, e₂, answer, e₃, screen, ?_, hrest⟩
  rw [List.append_assoc, List.cons_append]

/-- What is on offer since then is among the replies. -/
theorem Occasion.exists_option {e₀ : Engine} {cs : List Command} {session : Session}
    {scene : Scene} (h : Occasion levels e₀ cs p session scene) (name text : String)
    (hmem : (name, text) ∈ scene.offered) :
    ∃ o, session.talk.playerOptions.find? name = some o := by
  obtain ⟨_, _, _, _, _, _, _, _, _, _, _, _, ⟨_, _, _, _, _, _, _, _, hoffers, _⟩, _⟩ := h
  exact hoffers.exists_option hmem

/-- Turning the page leaves the occasion. -/
theorem Occasion.paged {e₀ : Engine} {cs : List Command} {session : Session} {scene : Scene}
    (h : Occasion levels e₀ cs p session scene) (screen : Screen) :
    Occasion levels e₀ cs p { session with screen } scene := h

variable {e₀ : Engine} {cs : List Command}

/-- At the end of a run, every session shows what a request of the run has shown. -/
theorem exists_occasion (hK₀ : K.Authored A Conversation.Closed)
    (he₀ : e₀.Authored A Conversation.Closed K) (hseats : ∀ p, e₀.sessions.find? p = none)
    (htalk : ∀ r, .request r ∈ A → r.ofTalk = false)
    (hreload : ∀ packages, .replacePackages packages ∈ cs →
      packages.Authored A Conversation.Closed)
    (hrun : performAll levels cs e₀ = .ok e) {session : Session}
    (hsession : e.sessions.find? p = some session) :
    ∃ scene, Displays session scene ∧ Occasion levels e₀ cs p session scene := by
  induction cs using List.reverseRecOn generalizing e session with
  | nil =>
    cases hrun
    rw [hseats] at hsession
    cases hsession
  | append_singleton cs c ih =>
    obtain ⟨e₁, answer, hbefore, hlast⟩ := performAll_concat hrun
    have hreload₁ : ∀ packages, .replacePackages packages ∈ cs →
        packages.Authored A Conversation.Closed :=
      fun packages h => hreload packages (List.mem_append_left _ h)
    obtain ⟨hK₁, he₁⟩ := authored_of_performAll he₀ hK₀ hreload₁ hbefore
    -- Nothing touches the session but what its player asks for about it.
    by_cases hc : ∀ r, c = .request p r → r.ofTalk = false
    · rw [seat_of_perform he₁ hK₁ htalk hc hlast] at hsession
      obtain ⟨scene, hdisplays, hoccasion⟩ := ih hreload₁ hbefore hsession
      exact ⟨scene, hdisplays, hoccasion.concat c⟩
    · obtain ⟨r, rfl, hr⟩ : ∃ r, c = .request p r ∧ r.ofTalk = true := by simpa using hc
      -- By induction the session waits at what was shown, and each reply on offer is an option.
      have hchoice : ∀ session, e₁.sessions.find? p = some session → ∃ text offered,
          session.phase = .selecting text offered ∧ ∀ name text, (name, text) ∈ offered →
            ∃ o, session.talk.playerOptions.find? name = some o := by
        intro session hsession
        obtain ⟨scene, hdisplays, hoccasion⟩ := ih hreload₁ hbefore hsession
        exact ⟨scene.text, scene.offered, hdisplays.phase, hoccasion.exists_option⟩
      have hP : ∀ seat, KeptByContent (nested levels) p A true (Seated A e₁.packages p seat)
          fun _ => True := fun _ => (seated_keptByAll hK₁ p).keptByContent htalk trivial trivial
            levels ()
      obtain ⟨seat, hturn, hseated⟩ := (answer_turn hP hK₁ ⟨he₁, rfl⟩ hr hchoice).of_run hlast
      rw [hseated.seat] at hsession
      subst hsession
      generalize hseat : some session = seat at hturn
      cases hturn with
      | still =>
        obtain ⟨scene, hdisplays, hoccasion⟩ := ih hreload₁ hbefore hseat.symm
        exact ⟨scene, hdisplays, hoccasion.concat _⟩
      | ended => cases hseat
      | @paged former screen hformer hprompt =>
        cases hseat
        obtain ⟨scene, hdisplays, hoccasion⟩ := ih hreload₁ hbefore hformer
        refine ⟨scene, ?_, (hoccasion.paged screen).concat _⟩
        exact { hdisplays with prompt := hprompt.trans hdisplays.prompt }
      | @shown talk pointers e₂ scene shown hbegins hshown htalk hdisplays =>
        cases hseat
        subst htalk
        exact ⟨scene, hdisplays, cs, r, [], e₁, pointers, e₂, answer, e, session.screen, rfl,
          hbefore, hbegins, hshown, hlast, hseated.seat⟩

/-- What it comes to that a player picks a reply. -/
inductive Picks (n : Nested) (p : PlayerId) (index : Nat) (e : Engine) :
    Except TalkError TalkState → Engine → Prop where
  /-- He is in no conversation. -/
  | nobody (hnone : e.sessions.find? p = none) : Picks n p index e (.error (.noSession p)) e
  /-- There is no such reply. -/
  | outside {session : Session} {scene : Scene} (hsession : e.sessions.find? p = some session)
      (hdisplays : Displays session scene) (hindex : scene.offered[index]? = none) :
      Picks n p index e (.error (.invalidSelection index scene.offered.length)) e
  /-- The reply on offer is carried out: its events are fired, and then its pointers are
  followed. -/
  | reply {session : Session} {scene : Scene} {name text : String} {reply : TalkOption}
      {e₁ e' : Engine} {state : TalkState} (hsession : e.sessions.find? p = some session)
      (hdisplays : Displays session scene) (hindex : scene.offered[index]? = some (name, text))
      (hreply : session.talk.playerOptions.find? name = some reply)
      (hevents : (Action.fireEach n p reply.events).run
        { e with sessions := e.sessions.put p { session with phase := .resolving } } =
          .ok ((), e₁))
      (hleads : Leads n p session.talk reply.pointers e₁ state (e'.sessions.find? p)) :
      Picks n p index e (.ok state) e'

theorem Picks.ne_busy {n : Nested} {index : Nat} {answer : Except TalkError TalkState}
    (h : Picks n p index e answer e') : answer ≠ .error (.busy p) := by
  cases h <;> exact nofun

/-- **Conversations wait at a choice.**  After any run over packages of built-in keywords:

* Whoever has a session has one that shows a line and waits for one of the replies on offer.  A
  request of his own has shown it: the line was the first one open, and the replies are those of its
  pointers that were open after its events, in their order.
* Picking a reply carries out that reply, and is never refused because the session is busy.
-/
theorem waits_at_choice {levels : Nat} {cs : List Command} {registry : Registry}
    {integrations : Integrations} {world : World} {archived : Bool} {screen : String}
    {clock : Calendar.Timestamp} {dice : Dice} {e : Engine}
    (hkeywords : ∀ packages, .replacePackages packages ∈ cs → packages.OfKeywords)
    (hrun : performAll levels cs (fresh registry integrations world archived screen clock dice) =
      .ok e) :
    (∀ p session, e.sessions.find? p = some session → ∃ scene, Displays session scene ∧
      e.sessions.state? p =
        some (.selecting session.talk.id scene.text (scene.offered.map Prod.snd)) ∧
      Occasion levels (fresh registry integrations world archived screen clock dice) cs p session
        scene) ∧
    ∀ levels' p index (answer : Except TalkError TalkState) e',
      e.perform levels' (.request p (.selectOption index)) = .ok (answer, e') →
        Picks (nested levels') p index e answer e' ∧ answer ≠ .error (.busy p) := by
  have hreload : ∀ packages, .replacePackages packages ∈ cs →
      packages.Authored Demand.ofKeywords Conversation.Closed :=
    fun packages h => (hkeywords packages h).authored
  have htalk : ∀ r, .request r ∈ Demand.ofKeywords → r.ofTalk = false :=
    fun _ => Demand.ofTalk_of_ofKeywords
  have hoccasions : ∀ p session, e.sessions.find? p = some session → ∃ scene,
      Displays session scene ∧ Occasion levels _ cs p session scene := fun p session hsession =>
    exists_occasion Packages.authored_empty (authored_fresh _ _ _ _ _ _ _) (fun _ => rfl) htalk
      hreload hrun hsession
  refine ⟨fun p session hsession => ?_, fun levels' p index answer e' h => ?_⟩
  · obtain ⟨scene, hdisplays, hoccasion⟩ := hoccasions p session hsession
    refine ⟨scene, hdisplays, ?_, hoccasion⟩
    rw [Sessions.state?, hsession, Option.map_some, Session.state, hdisplays.phase]
  · suffices hpicks : Picks (nested levels') p index e answer e' from ⟨hpicks, hpicks.ne_busy⟩
    obtain ⟨hK, he⟩ := authored_of_keywords hkeywords hrun
    have hP : ∀ seat, KeptByContent (nested levels') p Demand.ofKeywords true
        (Seated Demand.ofKeywords e.packages p seat) fun _ => True := fun _ =>
      (seated_keptByAll hK p).keptByContent htalk trivial trivial levels' ()
    cases hsession : e.sessions.find? p with
    | none =>
      have hselect : (select (nested levels') p index).Ensures e (fun _ => True)
          fun answer e' => answer = .error (.noSession p) ∧ e' = e := by
        refine Act.ensures_get_bind ?_
        rw [hsession]
        exact ⟨rfl, rfl⟩
      obtain ⟨rfl, rfl⟩ := hselect.of_run h
      exact .nobody hsession
    | some session =>
      obtain ⟨scene, hdisplays, hoccasion⟩ := hoccasions p session hsession
      have hselect := select_leads hP hK ⟨he, hsession⟩ hdisplays.phase hoccasion.exists_option
        index
      rcases hselect.of_run h with ⟨hindex, rfl, rfl⟩ | ⟨name, shown, reply, e₁, state, seat,
        hindex, hreply, hevents, hleads, rfl, he'⟩
      · exact .outside hsession hdisplays hindex
      · exact .reply hsession hdisplays hindex hreply hevents (he'.seat.symm ▸ hleads)

/-- An innkeeper who is asked who he is only by those who hide. -/
def keeper : ConversationSource where
  quester := "Keeper"
  first := ["hello"]
  screen := none
  finalEvents := []
  npcOptions := .ofList [("hello", ⟨"Welcome.", [], [], ["ask", "leave"]⟩)]
  playerOptions := .ofList
    [("ask", ⟨"Who are you?", ["hidden"], [], ["hello"]⟩), ("leave", ⟨"Goodbye.", [], [], []⟩)]

/-- An inn with its keeper. -/
def inn : Sources where
  packages := (∅ : Table String PackageSource).insert "inn" { PackageSource.empty with
    conditions := .ofList [("hidden", "sneak")]
    conversations := (∅ : Table String ConversationSource).insert "keeper" keeper }

/-- Someone talks to the keeper. -/
def visit : List Command :=
  [.replacePackages (Packages.compile (Vocabulary.registry ⟨true, true⟩) inn),
    .request ⟨"ann"⟩ (.startConversation ⟨"inn", "keeper"⟩)]

/-- The keeper has spoken, and the only reply to him is the one that is open. -/
theorem waits_at_choice_of_visit : ∃ e session scene, performAll 1 visit idle = .ok e ∧
    e.sessions.find? ⟨"ann"⟩ = some session ∧ Displays session scene ∧
    scene.offered.map Prod.snd = ["Goodbye."] ∧ Occasion 1 idle visit ⟨"ann"⟩ session scene := by
  have hcompile : Packages.compile (Vocabulary.registry ⟨true, true⟩) inn =
      compileWithin (Vocabulary.registry ⟨true, true⟩) inn 3 :=
    (compileWithin_eq (show 2 < 3 by decide) (by decide +kernel)).symm
  have h : passes (performAll 1 visit idle) (fun e => e.sessions.state? ⟨"ann"⟩ ==
      some (.selecting ⟨"inn", "keeper"⟩ "Welcome." ["Goodbye."])) = true := by
    rw [visit, hcompile]
    decide +kernel
  obtain ⟨e, hrun, h⟩ := exists_of_passes h
  have hkeywords : ∀ packages, .replacePackages packages ∈ visit → packages.OfKeywords := by
    intro packages hmem
    obtain rfl : packages = _ := by simpa [visit] using hmem
    exact ⟨_, _, rfl⟩
  have hstate := beq_iff_eq.1 h
  obtain ⟨session, hsession, -⟩ := Option.map_eq_some_iff.1 hstate
  obtain ⟨scene, hdisplays, hscene, hoccasion⟩ :=
    (waits_at_choice hkeywords hrun).1 ⟨"ann"⟩ session hsession
  simp only [hstate, Option.some.injEq, TalkState.selecting.injEq] at hscene
  exact ⟨e, session, scene, hrun, hsession, hdisplays, hscene.2.2.symm, hoccasion⟩

end Engine

end Questbook
