/-
Questbook/Proofs/Engine/Teardown.lean

Sessions are torn down once.

Whatever content runs, it leads sessions on as `Sessions.Leads` says: those that were left stay as
they are.  So the final events of a session, which are content like any other and may start and end
conversations themselves, find the session left, and add nothing to its story but that they were
fired (`Talks.farewell_leads`).  That is how a session that someone leaves comes to be over
(`Talks.depart_leads`), and a whole run leads from one moment to the next.  What a story tells of
has happened: the final events are run where they are written down (`Talks.depart_run_iff`), and
what is shown and closed is in the output of the player (`shown_of_performAll`).

Main result: `torn_down_once`.
-/
import Questbook.Proofs.Engine.Authored
import Questbook.Proofs.Engine.Display
import Questbook.Proofs.Package.Evaluate
import Questbook.Proofs.Talk.Course

namespace Questbook

variable {n : Nested} {p : PlayerId} {K : Packages} {H : Halt → Prop} {s : Sessions}
  {levels : Nat}

namespace Engine

/-- The packages `K` are in force, and the sessions are those that `s` has led to. -/
structure Led (K : Packages) (s : Sessions) (e : Engine) : Prop where
  packages : e.packages = K
  leads : s.Leads Set.univ e.sessions

variable {e : Engine}

theorem led_keptByAll (p : PlayerId) : KeptByAll p Set.univ true K (Led K) where
  within _ _ _ _ := Set.subset_univ _
  changes _ :=
    { dice := fun he => ⟨he.1, he.2⟩
      place := fun _ _ he => ⟨he.1, he.2⟩
      join := fun _ he => ⟨he.1, he.2⟩
      render := fun _ he => ⟨he.1, he.2⟩
      note := fun _ he => ⟨he.1, he.2⟩
      later := fun he _ _ => ⟨he.1, he.2⟩
      packages := fun he => he.packages
      start := fun {e id _} he _ _ =>
        ⟨(e.packages_begun p id _).trans he.packages, e.sessions_begun p id _ ▸ he.leads⟩
      store := fun he _ _ _ => ⟨he.1, he.2⟩
      cancel := fun he _ => ⟨he.1, he.2⟩
      prune := fun _ he => ⟨he.1, he.2⟩ }
  complete {s _ _ _ _} he _ := ⟨s, ⟨he.1, he.2⟩, fun _ he' => ⟨he'.1, he'.2⟩⟩

theorem led_keptByDeferral (p : PlayerId) : KeptByDeferral p Set.univ (Led K s) where
  defer he _ _ := ⟨he.1, he.2⟩

theorem led_keptByHost : KeptByHost Set.univ true K (Led K s) fun _ => True where
  within _ _ _ _ := Set.subset_univ _
  packages he := he.packages
  note _ he := ⟨he.1, he.2⟩
  remind he _ _ := ⟨he.1, he.2⟩
  tick he := ⟨he.1, he.2⟩
  tasks _ _ := Set.subset_univ _
  clock _ he := ⟨he.1, he.2⟩
  world _ he := ⟨he.1, he.2⟩
  overflow := trivial

theorem led_keptBySeat (p : PlayerId) :
    KeptBySeat p Set.univ true K (Led K s) where
  talk _ _ := Set.subset_univ _
  seat {_ _ talk} screen he _ hfree := ⟨he.packages, he.leads.start hfree talk screen⟩
  put _ he hsession htalk hnumber hstyle :=
    ⟨he.packages, he.leads.put hsession htalk hnumber hstyle⟩

end Engine

/-! ### The end of a session -/

namespace Talks

open Engine

variable (hcontent : ∀ s, KeptByContent n p Set.univ true (Led K s) H)
variable {e : Engine} {session : Session} {number : Nat}

include hcontent

/-- The final events of a session that was left add to its story that they were fired, in their
order, and whatever else they do happens to other sessions. -/
theorem farewell_leads (hpackages : e.packages = K) (he : e.sessions.Leads Set.univ e.sessions)
    (hleft : e.sessions.Left number) (events : List EventRef) :
    (farewell n p number events).Ensures e H fun _ e' => e'.packages = K ∧
      e.sessions.Leads {number}ᶜ e'.sessions ∧ e'.sessions.Left number ∧
        e'.sessions.story number =
          e.sessions.story number ++ events.map fun event => (p, .fired event.id) := by
  -- Each event begins where the ones before it have led, so the induction is over all moments.
  induction events generalizing e with
  | nil => exact ⟨hpackages, he.mono (Set.subset_univ _), hleft, (List.append_nil _).symm⟩
  | cons event rest ih =>
    obtain ⟨id, event⟩ := event
    have honly := e.sessions.only_tell p number (.fired id)
    -- What the event does starts from the moment at which it is written down.
    have htold : (e.told p number (.fired id)).Led K (e.told p number (.fired id)).sessions :=
      ⟨hpackages, honly.self he hleft⟩
    refine Act.ensures_modify_bind ?_
    have hfire : (discard (Action.fire n p event) : Act Unit).Keeps
        (Led K (e.told p number (.fired id)).sessions) H :=
      Act.keeps_discard
        (Action.fire_keeps (hcontent _) (Set.subset_univ _) (Set.subset_univ _))
    refine Act.ensures_bind (hfire _ htold) fun _ e₁ _ he₁ => ?_
    obtain ⟨hleft₁, hstory₁⟩ := (he₁.leads.follows number (Set.mem_univ _)).left hleft
    refine (ih he₁.packages he₁.leads.self hleft₁).mono fun _ e' _ h => ?_
    obtain ⟨hpackages', hleads', hleft', hstory'⟩ := h
    refine ⟨hpackages', ?_, hleft', ?_⟩
    · exact ((honly.leads he).trans (he₁.leads.mono (Set.subset_univ _))).trans hleads'
    · rw [hstory', hstory₁]
      show (e.sessions.tell p number (.fired id)).story number ++ _ = _
      rw [Sessions.story_tell_self, List.append_assoc]
      rfl

/-- A session that its player leaves is over, and the others are led on. -/
theorem depart_leads (he : e.Led K s) (hsession : e.sessions.find? p = some session)
    (how : Parting) :
    (depart n p session how).Ensures e H fun _ e' => e'.Led K s ∧
      e'.sessions.Over session.number p session.talk session.screen.style how := by
  obtain ⟨hborn, hrunning⟩ := he.leads.running hsession
  have hleft : (e.sessions.parted p session how).Left session.number :=
    ⟨hborn, hrunning.parted how⟩
  have hparted := (Sessions.only_parted hsession how).self he.leads.self hleft
  refine Act.ensures_modify_bind ?_
  suffices hfinale : (if how.natural then farewell n p session.number session.talk.finalEvents
      else pure ()).Ensures (e.parted p session how) H fun _ e' => e'.packages = K ∧
        (e.sessions.parted p session how).Leads {session.number}ᶜ e'.sessions ∧
        e'.sessions.Left session.number ∧ e'.sessions.story session.number =
          (e.sessions.parted p session how).story session.number ++
            (session.talk.finale how).map (p, ·) by
    refine hfinale.mono fun _ e' _ ⟨hpackages', hleads', hleft', hstory'⟩ => ?_
    obtain ⟨hled, hover⟩ := he.leads.depart hsession hleads' hleft' hstory'
    exact ⟨⟨hpackages', hled⟩, hover⟩
  -- A natural end fires the final events, and another one has none to fire.
  unfold Conversation.finale
  split
  · have hfarewell := farewell_leads hcontent (e := e.parted p session how) he.packages hparted
      hleft session.talk.finalEvents
    rw [List.map_map]
    exact hfarewell
  · exact ⟨he.packages, hparted.mono (Set.subset_univ _), hleft, (List.append_nil _).symm⟩

theorem scenes_lead (s : Sessions) : KeptByScenes n p Set.univ true K (Led K s) H where
  toKeptBySeat := led_keptBySeat p
  display _ he hsession htalk hnumber hstyle hopen :=
    ⟨he.packages,
      (he.leads.put hsession htalk hnumber hstyle).shown Sessions.find?_put_self hopen⟩
  depart how he hsession := (depart_leads hcontent he hsession how).mono fun _ _ _ h => h.1

/-- Whoever asks for an end leaves no session, and the one he had is over. -/
theorem leave_leads (he : e.Led K s) (how : Parting) :
    (leave n p how).Ensures e H fun left e' => left = (e.sessions.find? p).isSome ∧
      e'.Led K s ∧ ∀ session, e.sessions.find? p = some session →
        e'.sessions.Over session.number p session.talk session.screen.style how := by
  refine Act.ensures_get_bind ?_
  cases hsession : e.sessions.find? p with
  | none => exact ⟨rfl, he, nofun⟩
  | some session =>
    refine Act.ensures_get_bind ?_
    rw [Sessions.held?_eq_some_iff.2 ⟨hsession, rfl⟩]
    refine Act.ensures_bind (depart_leads hcontent he hsession how) fun _ e' _ h => ?_
    refine ⟨rfl, h.1, fun former hformer => ?_⟩
    cases hformer
    exact h.2

/-- A session that is brought to its end is over. -/
theorem conclude_leads (he : e.Led K s) (hcurrent : e.sessions.isCurrent p number = true)
    (how : Parting) : (conclude n p number how).Ensures e H fun _ e' =>
      ∃ talk style, e'.sessions.Over number p talk style how := by
  obtain ⟨session, hheld⟩ := Sessions.isCurrent_iff.1 hcurrent
  obtain ⟨hsession, rfl⟩ := Sessions.held?_eq_some_iff.1 hheld
  refine Act.ensures_bind (Act.ensures_map ?_) fun _ _ _ hover => hover
  refine Act.ensures_get_bind ?_
  rw [hheld]
  exact Act.ensures_bind (depart_leads hcontent he hsession how) fun _ _ _ h => ⟨_, _, h.2⟩

omit hcontent

/-- The final events of a session are fired one after another, each of them where it is written down
that it is. -/
inductive Fires (n : Nested) (p : PlayerId) (number : Nat) :
    List EventRef → Engine → Engine → Prop where
  | done (e : Engine) : Fires n p number [] e e
  | fire {id : ObjectId} {event : Gated Action} {rest : List EventRef} {e e₁ e' : Engine}
      {took : Bool}
      (hfire : (Action.fire n p event).run (e.told p number (.fired id)) = .ok (took, e₁))
      (hrest : Fires n p number rest e₁ e') : Fires n p number (⟨id, event⟩ :: rest) e e'

theorem farewell_run_iff {events : List EventRef} {e e' : Engine} :
    (farewell n p number events).run e = .ok ((), e') ↔ Fires n p number events e e' := by
  constructor
  · intro h
    induction events generalizing e with
    | nil =>
      cases h
      exact .done _
    | cons event rest ih =>
      obtain ⟨id, event⟩ := event
      obtain ⟨_, _, htell, h⟩ := Act.exists_of_run_bind h
      cases htell
      -- Whether the gate of the event lets it happen makes no difference to the next one.
      obtain ⟨_, e₁, hdiscard, hrest⟩ := Act.exists_of_run_bind h
      obtain ⟨took, _, hfire, hpure⟩ := Act.exists_of_run_bind (f := fun _ => pure ()) hdiscard
      cases hpure
      exact .fire hfire (ih hrest)
  · intro h
    induction h with
    | done => rfl
    | @fire id event rest e e₁ e' took hfire _ ih =>
      have htell : (Act.tell p number (.fired id)).run e =
        .ok ((), e.told p number (.fired id)) := rfl
      have hdiscard : (discard (Action.fire n p event) : Act Unit).run
          (e.told p number (.fired id)) = .ok ((), e₁) :=
        Act.run_bind_of_run (f := fun _ => pure ()) hfire
      exact (Act.run_bind_of_run htell).trans ((Act.run_bind_of_run hdiscard).trans ih)

/-- What tears a session down takes the player out of it, closes its screen, and fires what a
natural end has to fire. -/
theorem depart_run_iff {how : Parting} {e e' : Engine} :
    (depart n p session how).run e = .ok ((), e') ↔
      Fires n p session.number (if how.natural then session.talk.finalEvents else [])
        (e.parted p session how) e' := by
  rw [← farewell_run_iff]
  unfold depart
  cases how.natural <;> rfl

/-- Why a step that carries on the session with a number ends it: no line is open, a line leaves no
reply open, or the reply that was picked leads to no line or is none. -/
inductive Ends (n : Nested) (p : PlayerId) :
    Nat → {α : Type} → Engine → Act α → Parting → Prop where
  | noLine {number : Nat} {talk : Conversation} {pointers : List String} {e e₁ : Engine}
      (hnone : (firstOpen n p talk.npcOptions pointers).run e = .ok (none, e₁))
      (hcurrent : e₁.sessions.isCurrent p number = true) :
      Ends n p number e (advance n p number talk pointers) .noLine
  | noReply {number : Nat} {name speaker text : String} {e : Engine}
      (hcurrent : e.sessions.isCurrent p number = true) :
      Ends n p number e (present n p number name speaker text []) .noReply
  | noPointers {session : Session} {reply : TalkOption} {e e₁ : Engine}
      (hpointers : reply.pointers = [])
      (hevents : (Action.fireEach n p reply.events).run e = .ok ((), e₁))
      (hcurrent : e₁.sessions.isCurrent p session.number = true) :
      Ends n p session.number e (follow n p session reply) .noPointers
  | unknownReply {session : Session} {text name reply : String} {offered : List (String × String)}
      {index : Nat} {e : Engine} (hsession : e.sessions.find? p = some session)
      (hphase : session.phase = .selecting text offered)
      (hindex : offered[index]? = some (name, reply))
      (hunknown : session.talk.playerOptions.find? name = none) :
      Ends n p session.number e (select n p index) .noPointers

theorem Ends.natural {α : Type} {a : Act α} {how : Parting} (h : Ends n p number e a how) :
    how.natural = true := by
  cases h <;> rfl

/-- However a session comes to be ended, it is over as that end has it. -/
theorem ends_over {α : Type} {a : Act α} {how : Parting}
    (hP : ∀ s, KeptByPlay n p Set.univ true K (Led K s) H) (he : e.Led K s)
    (h : Ends n p number e a how) :
    a.Ensures e H fun _ e' => ∃ talk style, e'.sessions.Over number p talk style how := by
  have hcontent := fun s => (hP s).content
  -- However it ends, the session is the one of its player when it is concluded.
  cases h with
  | @noLine number talk pointers _ e₁ hnone hcurrent =>
    have he₁ : e₁.Led K s :=
      ((firstOpen_ensures (hP s).talking (fun _ _ _ => Set.subset_univ _) pointers he).of_run
        hnone).1
    exact Act.ensures_bind_of_run hnone (conclude_leads hcontent he₁ hcurrent _)
  | @noReply _ name speaker text _ hcurrent =>
    obtain ⟨session, hheld⟩ := Sessions.isCurrent_iff.1 hcurrent
    obtain ⟨hsession, rfl⟩ := Sessions.held?_eq_some_iff.1 hheld
    let session' := shown session name speaker text []
    have hshowing : (e.showing p session' session'.screen.display).Led K s :=
      (hP s).talks.display session' he hsession rfl rfl (style_shown ..)
        (Screen.close_notMem_display _)
    refine Act.ensures_get_bind ?_
    rw [hheld]
    refine Act.ensures_modify_bind ?_
    exact conclude_leads hcontent hshowing (Sessions.isCurrent_of_find? Sessions.find?_put_self) _
  | @noPointers session reply _ e₁ hpointers hevents hcurrent =>
    have he₁ : e₁.Led K s :=
      (Action.fireEach_keeps (hcontent s) (Set.subset_univ _)).of_run he hevents
    refine Act.ensures_bind_of_run hevents (Act.ensures_get_bind ?_)
    rw [if_pos hcurrent, hpointers]
    exact conclude_leads hcontent he₁ hcurrent _
  | @unknownReply session text name reply offered index _ hsession hphase hindex hunknown =>
    let session' : Session := { session with phase := .resolving }
    have hput : ({ e with sessions := e.sessions.put p session' } : Engine).Led K s :=
      (hP s).talks.put session' he hsession rfl rfl rfl
    refine Act.ensures_get_bind ?_
    rw [hsession]
    dsimp only
    rw [hphase]
    dsimp only
    rw [hindex]
    refine Act.ensures_modify_bind ?_
    rw [hunknown]
    exact Act.ensures_map (conclude_leads hcontent hput
      (Sessions.isCurrent_of_find? Sessions.find?_put_self) _)

/-- Who is in no conversation asks for its end in vain. -/
theorem leave_run_of_none (hnone : e.sessions.find? p = none) (how : Parting) :
    (leave n p how).run e = .ok (false, e) := by
  refine (Act.run_get_bind _ e).trans ?_
  rw [hnone]
  rfl

/-- A player who is gone is in his session no more, and that is all. -/
theorem leave_run_of_disconnected (hsession : e.sessions.find? p = some session) :
    (leave n p .disconnected).run e = .ok (true, e.parted p session .disconnected) := by
  refine (Act.run_get_bind _ e).trans ?_
  rw [hsession]
  refine (Act.run_get_bind _ e).trans ?_
  rw [Sessions.held?_eq_some_iff.2 ⟨hsession, rfl⟩]
  rfl

end Talks

/-! ### Runs -/

namespace Engine

variable {e e₁ e' : Engine} {c : Command} {cs : List Command}

theorem led_keptByPlay (levels : Nat) (p : PlayerId) (s : Sessions) :
    KeptByPlay (nested levels) p Set.univ true K (Led K s) fun _ => True :=
  (led_keptByAll p).keptByPlay_of_scenes (fun _ => Talks.scenes_lead) trivial trivial levels s

/-- Every command leads sessions on. -/
theorem leads_of_perform {answer : c.Answer} (he : s.Leads Set.univ e.sessions)
    (h : e.perform levels c = .ok (answer, e')) : s.Leads Set.univ e'.sessions := by
  rcases c.mode_cases with ⟨records, rfl⟩ | ⟨packages, rfl⟩ | ⟨hmode, -⟩
  · have hkeeps : (Objectives.restore records).Keeps (fun e => s.Leads Set.univ e.sessions)
        fun _ => True :=
      Objectives.restore_keeps (fun p startedAt he _ _ => by rwa [sessions_enter]) records
    exact hkeeps.of_run he h
  · have hreload : ∀ p, KeptByReload p packages fun e => s.Leads Set.univ e.sessions := fun _ =>
      ⟨fun he _ _ => he, fun he _ _ _ => he, fun _ he => he⟩
    have hkeeps : (Objectives.reconcile packages).Keeps (fun e => s.Leads Set.univ e.sessions)
        fun _ => True := Objectives.reconcile_keeps hreload
    exact hkeeps.of_run (e := { e with packages }) he h
  · have hkeeps : (c.perform (nested levels)).Keeps (Led e.packages s) fun _ => True :=
      Command.perform_keeps led_keptByHost (fun p => led_keptByPlay levels p s) c
        (fun event _ => led_keptByDeferral event.player)
        (fun records hc => by subst hc; cases hmode) fun packages hc => by subst hc; cases hmode
    exact (hkeeps.of_run ⟨rfl, he⟩ h).leads

/-- A run leads sessions on. -/
theorem leads_of_performAll (he : e.sessions.Leads Set.univ e.sessions)
    (hrun : performAll levels cs e = .ok e') : e.sessions.Leads Set.univ e'.sessions := by
  induction cs using List.reverseRecOn generalizing e' with
  | nil =>
    cases hrun
    exact he
  | append_singleton cs c ih =>
    obtain ⟨e₁, answer, hbefore, hlast⟩ := performAll_concat hrun
    exact leads_of_perform (ih hbefore) hlast

/-- Where there are no sessions, none has begun. -/
theorem leads_empty : Sessions.empty.Leads Set.univ Sessions.empty where
  next := le_rfl
  chronicle := List.suffix_rfl
  follows _ _ :=
    { left := fun hleft => ⟨hleft, rfl⟩
      course := fun _ => .unborn (Nat.zero_le _) nofun rfl }

/-- Who has asked for an end, and is in a session later on in the run, has begun it since. -/
theorem begun_since_leave (he : e.sessions.Leads Set.univ e.sessions) {how : Parting} {left : Bool}
    (hleave : (Talks.leave (nested levels) p how).run e = .ok (left, e₁))
    (hrun : performAll levels cs e₁ = .ok e') {session : Session}
    (hsession : e'.sessions.find? p = some session) :
    e.sessions.nextNumber ≤ session.number ∧
      (p, .began session.talk session.screen.style) ∈ e'.sessions.story session.number := by
  have hcontent : ∀ s, KeptByContent (nested levels) p Set.univ true (Led e.packages s)
      fun _ => True := fun s => (led_keptByPlay levels p s).content
  obtain ⟨-, he₁, hover⟩ := (Talks.leave_leads hcontent ⟨rfl, he⟩ how).of_run hleave
  have hrest := leads_of_performAll he₁.leads.self hrun
  refine (he₁.leads.trans hrest).since he (fun former hformer => ?_) hsession
  have hborn := (he.running hformer).1.trans_le he₁.leads.next
  exact ((hrest.follows _ (Set.mem_univ _)).left ⟨hborn, (hover former hformer).free⟩).1.2

/-- **Every session is torn down once.**  After any run of commands from a fresh engine:

* A session that has begun is running, in the hands of one player, and its screen has not been
  closed; or it is over: nobody is in it, and its story ends with the player leaving, the closing of
  the screen, and at a natural end the final events in their order, each of it once.  A session that
  has not begun has no story.
* What a menu has shown of a session that is over ends with its closing, and there is no closing
  before.
* A session that is carried on, now or within what is led to from here, and finds no line open, or
  leaves no reply open, or follows a reply without pointers, is over by that end, a natural one.
* What the story of a session tells of its screen, the closing too, is in the output of its player,
  in that order, unless the host has taken it away.
* Whenever a session is torn down, by whatever end, just the final events that its story tells of
  are fired, in their order, and each where the story tells of it.
* The end that a player asks for is a natural one.  When he disconnects, he is in his session no
  more, its screen is closed, and nothing else happens.
* Both change nothing for a player in no session; and that is how it stays when he has asked for
  either of them, at any later moment of the run, as long as he has begun no new session.
-/
theorem torn_down_once (registry : Registry) (integrations : Integrations) (world : World)
    (archived : Bool) (defaultScreen : String) (clock : Calendar.Timestamp) (dice : Dice)
    {levels : Nat}
    {cs : List Command} {e : Engine}
    (hrun : performAll levels cs
      (fresh registry integrations world archived defaultScreen clock dice) = .ok e) :
    (∀ number < e.sessions.nextNumber,
      (∃ p session, e.sessions.Running number p session) ∨
        ∃ p talk style how, e.sessions.Over number p talk style how) ∧
    (∀ number ≥ e.sessions.nextNumber, e.sessions.Free number ∧ e.sessions.story number = []) ∧
    (∀ number p talk echo how, e.sessions.Over number p talk (.menu echo) how →
      ∃ shown, Frame.close ∉ shown ∧ e.sessions.frames number = shown ++ [.close]) ∧
    (∀ levels' p number e₁ α (a : Act α) how, e.sessions.Leads Set.univ e₁.sessions →
      Talks.Ends (nested levels') p number e₁ a how → ∀ answer e', a.run e₁ = .ok (answer, e') →
        how.natural = true ∧ ∃ talk style, e'.sessions.Over number p talk style how) ∧
    (Lasting cs → ∀ number p (moments : List Moment), e.sessions.story number = moments.map (p, ·) →
      (e.sessions.frames number).Sublist (e.world.output p)) ∧
    (∀ n p session how e₁ e', (Talks.depart n p session how).run e₁ = .ok ((), e') ↔
      Talks.Fires n p session.number (if how.natural then session.talk.finalEvents else [])
        (e₁.parted p session how) e') ∧
    ∀ levels' p,
      (∀ session, e.sessions.find? p = some session →
        e.perform levels' (.request p .disconnect) =
          .ok (true, e.parted p session .disconnected) ∧
        ∀ (ended : Bool) e', e.perform levels' (.request p .endConversation) = .ok (ended, e') →
          ended = true ∧
          e'.sessions.Over session.number p session.talk session.screen.style .dismissed) ∧
      (e.sessions.find? p = none →
        e.perform levels' (.request p .endConversation) = .ok (false, e) ∧
        e.perform levels' (.request p .disconnect) = .ok (false, e)) ∧
      ∀ (ended : Bool) e₁ ds e',
        (e.perform levels' (.request p .endConversation) = .ok (ended, e₁) ∨
          e.perform levels' (.request p .disconnect) = .ok (ended, e₁)) →
        performAll levels' ds e₁ = .ok e' →
        (∀ number ≥ e.sessions.nextNumber, ∀ talk style,
          (p, .began talk style) ∉ e'.sessions.story number) →
        e'.perform levels' (.request p .endConversation) = .ok (false, e') ∧
        e'.perform levels' (.request p .disconnect) = .ok (false, e') := by
  have hleads : Sessions.empty.Leads Set.univ e.sessions := leads_of_performAll leads_empty hrun
  -- Where there were no sessions none was left, so that all of them are on their course.
  have hcourse : ∀ number, e.sessions.Course number := fun number =>
    (hleads.follows number (Set.mem_univ _)).course fun hleft => Nat.not_lt_zero _ hleft.1
  have hnone : ∀ levels' p (e : Engine), e.sessions.find? p = none →
      e.perform levels' (.request p .endConversation) = .ok (false, e) ∧
        e.perform levels' (.request p .disconnect) = .ok (false, e) := fun _ _ _ hnone =>
    ⟨Talks.leave_run_of_none hnone _, Talks.leave_run_of_none hnone _⟩
  refine ⟨fun number hnumber => ?_, fun number hnumber => ?_, fun number p talk echo how hover =>
    hover.frames, fun levels' p number e₁ α a how hled hends answer e' h => ?_,
    fun hlasting number p moments hstory => ?_, fun n p session how e₁ e' => Talks.depart_run_iff,
    fun levels' p => ⟨fun session hsession => ⟨?_, fun ended e' h => ?_⟩, hnone levels' p e,
      fun ended e₁ ds e' hleave hrest hnew => ?_⟩⟩
  · cases hcourse number with
    | unborn hunborn => exact absurd hnumber (Nat.not_lt.2 hunborn)
    | running _ hrunning => exact .inl ⟨_, _, hrunning⟩
    | ended _ hover => exact .inr ⟨_, _, _, _, hover⟩
  · cases hcourse number with
    | unborn _ hfree hstory => exact ⟨hfree, hstory⟩
    | running hborn | ended hborn => exact absurd hborn (Nat.not_lt.2 hnumber)
  · have hover := Talks.ends_over (led_keptByPlay levels' p) ⟨rfl, hled⟩ hends
    exact ⟨hends.natural, hover.of_run h⟩
  · refine (Sessions.frames_sublist_shownTo hstory).trans (shown_of_performAll ?_ hlasting hrun p)
    exact fun q => List.nil_sublist (world.output q)
  · exact Talks.leave_run_of_disconnected hsession
  · have hcontent : ∀ s, KeptByContent (nested levels') p Set.univ true (Led e.packages s)
        fun _ => True := fun s => (led_keptByPlay levels' p s).content
    obtain ⟨rfl, -, hover⟩ := (Talks.leave_leads hcontent ⟨rfl, hleads⟩ .dismissed).of_run h
    rw [hsession]
    exact ⟨rfl, hover session hsession⟩
  · have hleave : ∃ how, (Talks.leave (nested levels') p how).run e = .ok (ended, e₁) := by
      rcases hleave with h | h
      · exact ⟨.dismissed, h⟩
      · exact ⟨.disconnected, h⟩
    obtain ⟨how, hleave⟩ := hleave
    refine hnone levels' p e' ?_
    -- If there is a session, it has begun since, and the story of a new one tells of its beginning.
    by_contra hseat
    obtain ⟨session, hsession⟩ := Option.ne_none_iff_exists'.1 hseat
    obtain ⟨hsince, hbegan⟩ := begun_since_leave hleads.self hleave hrest hsession
    exact hnew _ hsince _ _ hbegan

/-- A host who greets his guests with a menu, and waves to them when they go. -/
def host : ConversationSource where
  quester := "Host"
  first := ["hello"]
  screen := some "menu"
  finalEvents := ["wave"]
  npcOptions := .ofList [("hello", ⟨"Welcome.", [], [], ["stay"]⟩)]
  playerOptions := .ofList [("stay", ⟨"Thank you.", [], [], ["hello"]⟩)]

/-- A house with its host. -/
def house : Sources where
  packages := (∅ : Table String PackageSource).insert "house" { PackageSource.empty with
    events := .ofList [("wave", "notify Farewell.")]
    conversations := (∅ : Table String ConversationSource).insert "host" host }

/-- Someone is greeted. -/
def greeting : List Command :=
  [.replacePackages (Packages.compile (Vocabulary.registry ⟨true, true⟩) house),
    .request ⟨"ann"⟩ (.startConversation ⟨"house", "host"⟩)]

/-- The host has waved once, when the menu was closed, and does not wave again. -/
theorem torn_down_once_of_greeting : ∃ e e' session, performAll 1 greeting idle = .ok e ∧
    e.sessions.find? ⟨"ann"⟩ = some session ∧
    session.talk.finalEvents.map (·.id) = [⟨"house", "wave"⟩] ∧
    e.perform 1 (.request ⟨"ann"⟩ .endConversation) = .ok (true, e') ∧
    e'.sessions.Over session.number ⟨"ann"⟩ session.talk (.menu false) .dismissed ∧
    e'.perform 1 (.request ⟨"ann"⟩ .endConversation) = .ok (false, e') := by
  have hcompile : Packages.compile (Vocabulary.registry ⟨true, true⟩) house =
      compileWithin (Vocabulary.registry ⟨true, true⟩) house 3 :=
    (compileWithin_eq (show 2 < 3 by decide) (by decide +kernel)).symm
  have h : passes (performAll 1 greeting idle) (fun e =>
      (e.sessions.find? ⟨"ann"⟩).any (fun session =>
        session.talk.finalEvents.map (·.id) = [⟨"house", "wave"⟩] ∧
          session.screen.style = .menu false) &&
      passes (e.perform 1 (.request ⟨"ann"⟩ .endConversation)) fun r =>
        (r.2.sessions.find? ⟨"ann"⟩).isNone) = true := by
    rw [greeting, hcompile]
    decide +kernel
  obtain ⟨e, hrun, h⟩ := exists_of_passes h
  obtain ⟨hfound, hended⟩ := Bool.and_eq_true_iff.1 h
  obtain ⟨session, hsession, hshown⟩ := (Option.any_eq_true _ _).1 hfound
  obtain ⟨hfinal, hstyle⟩ := of_decide_eq_true hshown
  obtain ⟨⟨ended, e'⟩, hend, hnone⟩ := exists_of_passes hended
  have hgone := Option.isNone_iff_eq_none.1 hnone
  have hover := ((torn_down_once _ _ _ _ _ _ _ hrun).2.2.2.2.2.2 1 ⟨"ann"⟩).1 session hsession
  obtain ⟨rfl, hover⟩ := hover.2 ended e' hend
  have hrun' := performAll_append_singleton hrun hend
  have hagain := ((torn_down_once _ _ _ _ _ _ _ hrun').2.2.2.2.2.2 1 ⟨"ann"⟩).2.1 hgone
  exact ⟨e, e', session, hrun, hsession, hfinal, hend, hstyle ▸ hover, hagain.1⟩

end Engine

end Questbook
