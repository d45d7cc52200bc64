/-
Questbook/Proofs/Engine/Astray.lean

Conversations never go astray.

A conversation follows names: those of its lines, of its replies and of its screen.  Here it is
asked what would become of a run if the engine did something else, whatever it may be, where such a
name leads to nothing: `Astray.performAll` is `performAll` with `lost` in each of these places, at
whatever depth a script has got to them.  Nothing would become of it.  A conversation that was
compiled is closed; a session goes on with the one it began with, even when the packages are
replaced meanwhile; and what it offers are replies that it has found.  With the screens it is the
same as long as the packages were compiled with the engine's own registry.

Main results: `Request.answer_guided`, what a request comes to on any level, and
`Engine.never_astray`.
-/
import Questbook.Proofs.Engine.Exchange
import Questbook.Proofs.Engine.Refusal
import Questbook.Proofs.Engine.Waiting
import Questbook.Proofs.Package.Conversations

namespace Questbook

/-- Packages that are compiled with a registry. -/
def Packages.CompiledWith (registry : Registry) (K : Packages) : Prop :=
  ∃ sources, K = Packages.compile registry sources

/-! ### An engine that goes astray -/

namespace Astray

-- `lost` is what the engine does where a name leads to nothing.
variable (lost : (α : Type) → Act α) (n : Nested) (p : PlayerId)

/-- The first open option; lost where a pointer leads to no option. -/
def firstOpen (options : Table String TalkOption) :
    List String → Act (Option (String × TalkOption))
  | [] => pure none
  | name :: rest =>
    match options.find? name with
    | none => lost _
    | some option => do
      if ← allHold n p option.conditions then pure (some (name, option))
      else firstOpen options rest

/-- All open options; lost where a pointer leads to no option. -/
def allOpen (options : Table String TalkOption) : List String → Act (List (String × String))
  | [] => pure []
  | name :: rest =>
    match options.find? name with
    | none => lost _
    | some option => do
      if ← allHold n p option.conditions then
        let text ← option.text.render n p
        pure ((name, text) :: (← allOpen options rest))
      else allOpen options rest

/-- `Talks.advance` with these options. -/
def advance (number : Nat) (talk : Conversation) (pointers : List String) : Act TalkState := do
  match ← firstOpen lost n p talk.npcOptions pointers with
  | none => Talks.conclude n p number .noLine
  | some (name, line) =>
    Action.fireEach n p line.events
    if (← get).sessions.isCurrent p number then
      let offered ← allOpen lost n p talk.playerOptions line.pointers
      let speaker ← talk.quester.render n p
      let text ← line.text.render n p
      Talks.present n p number name speaker text offered
    else pure .ended

open Classical in
/-- `Talks.start`; lost where there is no screen of the name that the conversation gives, although
it was compiled with the registry of the engine. -/
noncomputable def start (id : ObjectId) : Act (Except TalkError TalkState) := do
  let e ← get
  match e.packages.get .conversation id with
  | .error err => pure (.error (.notFound err))
  | .ok talk =>
    let name := talk.screen.getD e.defaultScreen
    match e.registry.screen? name with
    | none =>
      if talk.screen.isSome ∧ e.packages.CompiledWith e.registry then lost _
      else pure (.error (.unknownScreen name))
    | some style =>
      if (e.sessions.find? p).isSome then pure (.error (.alreadyActive p))
      else
        let (number, sessions) := e.sessions.start p talk (Screen.ofStyle style)
        Act.changeSessions fun _ => sessions
        .ok <$> advance lost n p number talk talk.first

/-- `Talks.follow` with these options. -/
def follow (session : Session) (reply : TalkOption) : Act TalkState := do
  Action.fireEach n p reply.events
  if (← get).sessions.isCurrent p session.number then
    if reply.pointers.isEmpty then Talks.conclude n p session.number .noPointers
    else advance lost n p session.number session.talk reply.pointers
  else pure .ended

/-- `Talks.select`; lost where a reply on offer is no option. -/
def select (index : Nat) : Act (Except TalkError TalkState) := do
  match (← get).sessions.find? p with
  | none => pure (.error (.noSession p))
  | some session =>
    match session.phase with
    | .resolving => pure (.error (.busy p))
    | .selecting _ offered =>
      match offered[index]? with
      | none => pure (.error (.invalidSelection index offered.length))
      | some (name, _) =>
        Act.changeSessions (·.put p { session with phase := .resolving })
        match session.talk.playerOptions.find? name with
        | none => lost _
        | some reply => .ok <$> follow lost n p session reply

/-- Carry out a request on behalf of a player. -/
noncomputable def answer : (r : Request) → Act r.Answer
  | .startConversation id => start lost n p id
  | .selectOption index => select lost n p index
  | r => r.answer n p

/-- The engine with so many levels below it, all of which may go astray. -/
noncomputable def nested : Nat → Nested
  | 0 => ⟨fun _ _ => Act.halt .tooDeep, fun _ _ => Act.halt .tooDeep⟩
  | levels + 1 =>
    ⟨fun p events => Action.fireEach (nested levels) p events,
      fun p r => answer lost (nested levels) p r⟩

/-- Carry out a command. -/
noncomputable def perform : (c : Command) → Act c.Answer
  | .request p r => answer lost n p r
  | c => c.perform n

/-- Carry out commands one after another, whatever they answer. -/
noncomputable def performAll (levels : Nat) : List Command → Engine → Except Halt Engine
  | [], e => .ok e
  | c :: rest, e => do
    let (_, e) ← (perform lost (nested lost levels) c).run e
    performAll levels rest e

end Astray

/-! ### Sessions that lead nowhere amiss -/

/-- A session whose conversation is closed, and whose replies on offer are among its options. -/
structure Session.Guided (s : Session) : Prop where
  closed : s.talk.Closed
  offered : ∀ text offered, s.phase = .selecting text offered →
    ∀ reply ∈ offered, ∃ o, s.talk.playerOptions.find? reply.1 = some o

namespace Engine

/-- If a player is still in a session, it goes on with the same conversation. -/
structure Follows (e : Engine) (p : PlayerId) (s : Session) : Prop where
  issued : s.number < e.sessions.nextNumber
  talk : ∀ s', e.sessions.find? p = some s' → s'.number = s.number → s'.talk = s.talk

/-- The conversations of the packages in force are closed, and sessions lead nowhere amiss; those in
`F` go on with the same conversations, or are over. -/
structure Guided (registry : Registry) (screen : String) (F : Set (PlayerId × Session))
    (e : Engine) : Prop where
  registry_eq : e.registry = registry
  screen_eq : e.defaultScreen = screen
  talks : ∀ id talk, e.packages.get .conversation id = .ok talk → Conversation.Closed talk
  sessions : ∀ p s, e.sessions.find? p = some s → s.Guided ∧ s.number < e.sessions.nextNumber
  follows : ∀ x ∈ F, e.Follows x.1 x.2

variable {registry : Registry} {screen : String} {F G : Set (PlayerId × Session)} {e e' : Engine}
  {p : PlayerId} {session : Session}

theorem Follows.congr (h : e.Follows p session) (hsessions : e'.sessions = e.sessions) :
    e'.Follows p session := ⟨hsessions ▸ h.issued, hsessions ▸ h.talk⟩

theorem guided_keptBesides : KeptBesides (Guided registry screen F) := by
  intro e e' he h
  have hsessions := h.sessions
  exact
    { registry_eq := h.registry.trans he.registry_eq
      screen_eq := h.defaultScreen.trans he.screen_eq
      talks := h.packages ▸ he.talks
      sessions := hsessions ▸ he.sessions
      follows := fun x hx => (he.follows x hx).congr hsessions }

theorem Guided.mono (he : e.Guided registry screen F) (h : G ⊆ F) : e.Guided registry screen G :=
  { he with follows := fun x hx => he.follows x (h hx) }

/-- The session that a player is in goes on with its conversation. -/
theorem Guided.insert (he : e.Guided registry screen F)
    (hsession : e.sessions.find? p = some session) :
    e.Guided registry screen (insert (p, session) F) := by
  refine { he with follows := ?_ }
  rintro x (rfl | hx)
  · refine ⟨(he.sessions p session hsession).2, fun s' hs' _ => ?_⟩
    cases hsession.symm.trans hs'
    rfl
  · exact he.follows x hx

/-- Where there is no screen for a conversation, it names none: one that it names is registered. -/
theorem screen_eq_none_of_compiledWith (hown : e.packages.CompiledWith e.registry) {id : ObjectId}
    {talk : Conversation} (hget : e.packages.get .conversation id = .ok talk)
    (hnone : e.registry.screen? (talk.screen.getD e.defaultScreen) = none) :
    talk.screen = none := by
  obtain ⟨sources, hsources⟩ := hown
  rw [hsources] at hget
  cases hname : talk.screen with
  | none => rfl
  | some name =>
    obtain ⟨style, hstyle⟩ := (compile_guided hget).screen name hname
    rw [hname] at hnone
    cases hnone.symm.trans hstyle

/-- What happens to a session is written down. -/
theorem Guided.told (he : e.Guided registry screen F) (p : PlayerId) (number : Nat)
    (what : Moment) : (e.told p number what).Guided registry screen F :=
  ⟨he.registry_eq, he.screen_eq, he.talks, he.sessions, fun x hx => ⟨(he.follows x hx).issued,
    (he.follows x hx).talk⟩⟩

/-- A session goes on. -/
theorem Guided.put (he : e.Guided registry screen F) (session' : Session)
    (hsession : e.sessions.find? p = some session) (hnumber : session'.number = session.number)
    (htalk : session'.talk = session.talk) (hguided : session'.Guided) :
    Guided registry screen F { e with sessions := e.sessions.put p session' } where
  registry_eq := he.registry_eq
  screen_eq := he.screen_eq
  talks := he.talks
  sessions q s hs := by
    rw [Sessions.find?_put] at hs
    split at hs
    · cases hs
      exact ⟨hguided, hnumber ▸ (he.sessions p session hsession).2⟩
    · exact he.sessions q s hs
  follows x hx := by
    refine ⟨(he.follows x hx).issued, fun s hs hsame => ?_⟩
    rw [Sessions.find?_put] at hs
    split at hs
    · rename_i hp
      cases hs
      rw [htalk]
      exact (he.follows x hx).talk session (hp ▸ hsession) (hnumber ▸ hsame)
    · exact (he.follows x hx).talk s hs hsame

/-- A session is over. -/
theorem Guided.drop (he : e.Guided registry screen F) (p : PlayerId) :
    Guided registry screen F { e with sessions := e.sessions.drop p } where
  registry_eq := he.registry_eq
  screen_eq := he.screen_eq
  talks := he.talks
  sessions q s hs := by
    rw [Sessions.find?_drop] at hs
    split at hs
    · cases hs
    · exact he.sessions q s hs
  follows x hx := by
    refine ⟨(he.follows x hx).issued, fun s hs hsame => ?_⟩
    rw [Sessions.find?_drop] at hs
    split at hs
    · cases hs
    · exact (he.follows x hx).talk s hs hsame

/-- A session begins. -/
theorem Guided.seat (he : e.Guided registry screen F) {id : ObjectId} {talk : Conversation}
    (hdefined : e.packages.get .conversation id = .ok talk) (p : PlayerId) (shown : Screen) :
    Guided registry screen F { e with sessions := (e.sessions.start p talk shown).2 } where
  registry_eq := he.registry_eq
  screen_eq := he.screen_eq
  talks := he.talks
  sessions q s hs := by
    rw [Sessions.find?_start] at hs
    split at hs
    · cases hs
      exact ⟨⟨he.talks id talk hdefined, nofun⟩, Nat.lt_succ_self _⟩
    · exact ⟨(he.sessions q s hs).1, Nat.lt_succ_of_lt (he.sessions q s hs).2⟩
  follows x hx := by
    have hissued := (he.follows x hx).issued
    refine ⟨Nat.lt_succ_of_lt hissued, fun s hs hsame => ?_⟩
    rw [Sessions.find?_start] at hs
    split at hs
    · cases hs
      exact absurd hsame (Nat.ne_of_gt hissued)
    · exact (he.follows x hx).talk s hs hsame

end Engine

/-! ### Conversations -/

namespace Talks

open Engine

variable {lost : (α : Type) → Act α} {n n' : Nested} {p : PlayerId} {registry : Registry}
  {screen : String} {F : Set (PlayerId × Session)} {e : Engine} {session : Session}

section

variable (hn : Nested.Matches (Guided registry screen F) n n')

include hn

theorem farewell_guided (number : Nat) (events : List EventRef) :
    Act.Matches (Guided registry screen F) (farewell n p number events)
      (farewell n' p number events) := by
  induction events with
  | nil => exact Act.matches_pure _
  | cons event rest ih =>
    have htell : (Act.tell p number (.fired event.id)).Keeps (Guided registry screen F)
        fun _ => True := Act.keeps_modify fun _ he => he.told p number _
    exact Act.matches_bind (Act.matches_of_keeps htell) fun _ =>
      Act.matches_bind (Act.matches_discard (Action.fire_matches hn event.target)) fun _ => ih

theorem depart_guided (session : Session) (how : Parting) :
    Act.Matches (Guided registry screen F) (depart n p session how)
      (depart n' p session how) := by
  have hparted : (modify (·.parted p session how) : Act Unit).Keeps (Guided registry screen F)
      fun _ => True := Act.keeps_modify fun _ he => ((he.drop p).told p _ _).told p _ _
  refine Act.matches_bind (Act.matches_of_keeps hparted) fun _ => ?_
  split
  · exact farewell_guided hn _ _
  · exact Act.matches_pure _

theorem finish_guided (number : Nat) (how : Parting) :
    Act.Matches (Guided registry screen F) (finish n p number how) (finish n' p number how) := by
  refine Act.matches_get_bind fun e he => ?_
  split
  · exact Act.agrees_refl he
  · exact Act.matches_bind (depart_guided hn _ how) (fun _ => Act.matches_pure _) e he

theorem conclude_guided (number : Nat) (how : Parting) :
    Act.Matches (Guided registry screen F) (conclude n p number how)
      (conclude n' p number how) :=
  Act.matches_bind (Act.matches_discard (finish_guided hn number how)) fun _ => Act.matches_pure _

theorem leave_guided (how : Parting) :
    Act.Matches (Guided registry screen F) (leave n p how) (leave n' p how) := by
  refine Act.matches_get_bind fun e he => ?_
  split
  · exact Act.agrees_refl he
  · exact finish_guided hn _ how e he

/-- Where all names are those of options, an open one is found among them. -/
theorem firstOpen_guided {options : Table String TalkOption} {names : List String}
    (hnames : ∀ name ∈ names, ∃ o, options.find? name = some o)
    (he : e.Guided registry screen F) :
    (firstOpen n p options names).Agrees (Astray.firstOpen lost n' p options names) e
      fun found e' => e'.Guided registry screen F ∧
        ∀ name o, found = some (name, o) → options.find? name = some o := by
  induction names generalizing e with
  | nil => exact Act.agrees_refl ⟨he, nofun⟩
  | cons name rest ih =>
    obtain ⟨option, hoption⟩ := hnames name List.mem_cons_self
    simp only [firstOpen, Astray.firstOpen, hoption]
    refine Act.agrees_bind (allHold_matches hn option.conditions e he) fun met e' he' => ?_
    split
    · refine Act.agrees_refl ⟨he', fun name' o h => ?_⟩
      cases h
      exact hoption
    · exact ih (fun name h => hnames name (List.mem_cons_of_mem _ h)) he'

/-- Where all names are those of options, so are those of the open ones. -/
theorem allOpen_guided {options : Table String TalkOption} {names : List String}
    (hnames : ∀ name ∈ names, ∃ o, options.find? name = some o)
    (he : e.Guided registry screen F) :
    (allOpen n p options names).Agrees (Astray.allOpen lost n' p options names) e
      fun offered e' => e'.Guided registry screen F ∧
        ∀ reply ∈ offered, ∃ o, options.find? reply.1 = some o := by
  induction names generalizing e with
  | nil => exact Act.agrees_refl ⟨he, nofun⟩
  | cons name rest ih =>
    obtain ⟨option, hoption⟩ := hnames name List.mem_cons_self
    have hrest : ∀ name ∈ rest, ∃ o, options.find? name = some o :=
      fun name h => hnames name (List.mem_cons_of_mem _ h)
    simp only [allOpen, Astray.allOpen, hoption]
    refine Act.agrees_bind (allHold_matches hn option.conditions e he) fun met e₁ he₁ => ?_
    split
    · refine Act.agrees_bind (RichText.render_matches hn option.text e₁ he₁) fun text e₂ he₂ => ?_
      refine Act.agrees_bind (ih hrest he₂) fun offered e₃ h => Act.agrees_refl ⟨h.1, ?_⟩
      exact List.forall_mem_cons.2 ⟨⟨option, hoption⟩, h.2⟩
    · exact ih hrest he₁

/-- What is shown is offered as far as the conversation has it. -/
theorem present_guided (hsession : (p, session) ∈ F) (name speaker text : String)
    {offered : List (String × String)}
    (hoffered : ∀ reply ∈ offered, ∃ o, session.talk.playerOptions.find? reply.1 = some o) :
    Act.Matches (Guided registry screen F)
      (present n p session.number name speaker text offered)
      (present n' p session.number name speaker text offered) := by
  refine Act.matches_get_bind fun e he => ?_
  split
  · exact Act.agrees_refl he
  · rename_i current hheld
    obtain ⟨hcurrent, hnumber⟩ := Sessions.held?_eq_some_iff.1 hheld
    have htalk : current.talk = session.talk :=
      (he.follows _ hsession).talk current hcurrent hnumber
    have hguided : (shown current name speaker text offered).Guided := by
      refine ⟨(he.sessions p current hcurrent).1.closed, fun text' offered' hphase => ?_⟩
      cases hphase
      exact htalk.symm ▸ hoffered
    have he' : (e.showing p (shown current name speaker text offered)
        (shown current name speaker text offered).screen.display).Guided registry screen F :=
      (he.put (shown current name speaker text offered) hcurrent rfl rfl hguided).told p _ _
    refine Act.agrees_modify_bind ?_
    split
    · exact conclude_guided hn _ _ _ he'
    · exact Act.agrees_refl he'

/-- Following pointers of a session's conversation. -/
theorem advance_guided (hclosed : session.talk.Closed) (hsession : (p, session) ∈ F)
    {pointers : List String}
    (hpointers : ∀ name ∈ pointers, ∃ o, session.talk.npcOptions.find? name = some o) :
    Act.Matches (Guided registry screen F) (advance n p session.number session.talk pointers)
      (Astray.advance lost n' p session.number session.talk pointers) := by
  refine fun e he => Act.agrees_bind (firstOpen_guided hn hpointers he) fun found e₁ hfound => ?_
  obtain ⟨he₁, hopen⟩ := hfound
  rcases found with _ | ⟨name, line⟩
  · exact conclude_guided hn _ _ e₁ he₁
  · have hreplies := hclosed.npc name line (hopen name line rfl)
    refine Act.agrees_bind (Action.fireEach_matches hn line.events e₁ he₁) fun _ e₂ he₂ => ?_
    refine Act.agrees_get_bind ?_
    split
    · refine Act.agrees_bind (allOpen_guided hn hreplies he₂) fun offered e₃ h => ?_
      obtain ⟨he₃, hoffered⟩ := h
      refine Act.matches_bind (RichText.render_matches hn _) (fun speaker => ?_) e₃ he₃
      refine Act.matches_bind (RichText.render_matches hn _) fun text => ?_
      exact present_guided hn hsession _ _ _ hoffered
    · exact Act.agrees_refl he₂

/-- Following a reply of a session's conversation. -/
theorem follow_guided (hclosed : session.talk.Closed) (hsession : (p, session) ∈ F)
    {name : String} {reply : TalkOption}
    (hreply : session.talk.playerOptions.find? name = some reply) :
    Act.Matches (Guided registry screen F) (follow n p session reply)
      (Astray.follow lost n' p session reply) := by
  refine Act.matches_bind (Action.fireEach_matches hn reply.events) fun _ => ?_
  refine Act.matches_get_bind fun e he => ?_
  split
  · split
    · exact conclude_guided hn _ _ e he
    · exact advance_guided hn hclosed hsession (hclosed.player name reply hreply) e he
  · exact Act.agrees_refl he

end

section

variable (hn : ∀ F, Nested.Matches (Guided registry screen F) n n')

include hn

theorem start_guided (id : ObjectId) :
    Act.Matches (Guided registry screen F) (start n p id) (Astray.start lost n' p id) := by
  refine Act.matches_get_bind fun e he => ?_
  cases hdefined : e.packages.get .conversation id with
  | error err => exact Act.agrees_refl he
  | ok talk =>
    have htalk := he.talks id talk hdefined
    dsimp only
    cases hstyle : e.registry.screen? (talk.screen.getD e.defaultScreen) with
    | none =>
      -- Compiling has looked up the screen that a conversation names.
      have hnever : ¬ (talk.screen.isSome ∧ e.packages.CompiledWith e.registry) := by
        rintro ⟨hnamed, hown⟩
        rw [screen_eq_none_of_compiledWith hown hdefined hstyle] at hnamed
        cases hnamed
      rw [if_neg hnever]
      exact Act.agrees_refl he
    | some style =>
      dsimp only
      split
      · exact Act.agrees_refl he
      · let session : Session :=
          ⟨e.sessions.nextNumber, talk, .resolving, [], Screen.ofStyle style⟩
        have hseated : (e.sessions.start p talk (Screen.ofStyle style)).2.find? p = some session :=
          Table.find?_insert_self _ _ _
        have he₁ := (he.seat hdefined p (Screen.ofStyle style)).insert hseated
        have hclosed : session.talk.Closed := htalk
        refine Act.agrees_modify_bind (Act.agrees_map ?_)
        exact (advance_guided (hn _) hclosed (Set.mem_insert _ _) htalk.first _ he₁).mono
          fun _ _ h => h.mono (Set.subset_insert _ _)

theorem select_guided (index : Nat) :
    Act.Matches (Guided registry screen F) (select n p index) (Astray.select lost n' p index) := by
  refine Act.matches_get_bind fun e he => ?_
  cases hsession : e.sessions.find? p with
  | none => exact Act.agrees_refl he
  | some session =>
    obtain ⟨hclosed, hoffered⟩ := (he.sessions p session hsession).1
    dsimp only
    cases hphase : session.phase with
    | resolving => exact Act.agrees_refl he
    | selecting text offered =>
      dsimp only
      cases hindex : offered[index]? with
      | none => exact Act.agrees_refl he
      | some chosen =>
        obtain ⟨name, shown⟩ := chosen
        -- What is on offer is an option, so that the engine does not go astray here.
        obtain ⟨reply, hreply⟩ := hoffered text offered hphase _ (List.mem_of_getElem? hindex)
        have he₁ := (he.insert hsession).put { session with phase := .resolving } hsession rfl rfl
          ⟨hclosed, nofun⟩
        refine Act.agrees_modify_bind ?_
        simp only [hreply]
        exact Act.agrees_map ((follow_guided (hn _) hclosed (Set.mem_insert _ _) hreply _ he₁).mono
          fun _ _ h => h.mono (Set.subset_insert _ _))

end

theorem navigate_keeps_guided (command : String) :
    (navigate p command).Keeps (Guided registry screen F) fun _ => True := by
  refine Act.keeps_get_bind fun e he => ?_
  split
  · exact he
  · rename_i session hsession
    have hguided := (he.sessions p session hsession).1
    split
    · exact he
    · let turned : Session := { session with screen := (session.screen.navigate command).2.1 }
      have he' : (e.showing p turned (session.screen.navigate command).2.2).Guided registry
          screen F :=
        (he.put turned hsession rfl rfl ⟨hguided.closed, hguided.offered⟩).told p _ _
      exact Act.ensures_modify_bind he'

end Talks

/-! ### Levels -/

open Engine

variable {lost : (α : Type) → Act α} {n n' : Nested} {registry : Registry} {screen : String}
  {F : Set (PlayerId × Session)} {e e' : Engine} {levels : Nat}

/-- Wherever a request is made, the engine does not go astray. -/
theorem Request.answer_guided (hn : ∀ F, Nested.Matches (Guided registry screen F) n n')
    (p : PlayerId) (r : Request) :
    Act.Matches (Guided registry screen F) (r.answer n p) (Astray.answer lost n' p r) := by
  cases r with
  | startConversation id => exact Talks.start_guided hn id
  | selectOption index => exact Talks.select_guided hn index
  | navigate command => exact Act.matches_of_keeps (Talks.navigate_keeps_guided command)
  | talkState => exact Act.matches_of_keeps (Act.keeps_bind Act.keeps_get fun _ => Act.keeps_pure _)
  | endConversation => exact Talks.leave_guided (hn F) .dismissed
  | disconnect => exact Talks.leave_guided (hn F) .disconnected
  | startObjective id =>
    exact Act.matches_of_keeps (Objectives.start_keeps_besides (hn F).besides)
  | cancelObjective id =>
    exact Act.matches_of_keeps (Objectives.cancel_keeps_besides (hn F).besides)
  | completeObjective id => exact Objectives.complete_matches (hn F)
  | note entry =>
    exact Act.matches_of_keeps ((hn F).besides.keeps_modify fun _ => ⟨rfl, rfl, rfl, rfl⟩)

/-- On every level of the engine it is all the same what it would do if it went astray. -/
theorem nested_guided (lost : (α : Type) → Act α) (levels : Nat)
    (F : Set (PlayerId × Session)) :
    Nested.Matches (Guided registry screen F) (nested levels) (Astray.nested lost levels) := by
  -- What a level does rests on the one below; the lowest one halts at once.
  induction levels generalizing F with
  | zero =>
    exact ⟨guided_keptBesides, fun _ _ => Act.matches_of_keeps (Act.keeps_halt trivial),
      fun _ _ => Act.matches_of_keeps (Act.keeps_halt trivial)⟩
  | succ levels ih =>
    exact ⟨guided_keptBesides, fun _ events => Action.fireEach_matches (ih F) events,
      fun p r => Request.answer_guided ih p r⟩

/-! ### Commands and runs -/

namespace Engine

/-- A command does the same in an engine that would go astray. -/
theorem perform_guided (he : e.Guided registry screen F) (c : Command)
    (hreload : ∀ packages, c = .replacePackages packages →
      ∀ id talk, packages.get .conversation id = .ok talk → Conversation.Closed talk) :
    (c.perform (nested levels)).Agrees (Astray.perform lost (Astray.nested lost levels) c) e
      fun _ e' => e'.Guided registry screen F := by
  cases c with
  | request p r => exact Request.answer_guided (nested_guided lost levels) p r e he
  | replacePackages packages =>
    -- A reload runs no content; it puts its packages in force and fits progress to them.
    have hkeeps : (Objectives.reconcile packages).Keeps (Guided registry screen F)
        fun _ => True :=
      Objectives.reconcile_keeps fun _ =>
        { drop := fun he _ _ => guided_keptBesides he ⟨rfl, rfl, rfl, rfl⟩
          renew := fun he _ _ _ => guided_keptBesides he ⟨rfl, rfl, rfl, rfl⟩
          prune := fun _ he => guided_keptBesides he ⟨rfl, rfl, rfl, rfl⟩ }
    refine Act.agrees_modify_bind (Act.agrees_refl (hkeeps _ ?_))
    exact ⟨he.registry_eq, he.screen_eq, hreload packages rfl, he.sessions,
      fun x hx => (he.follows x hx).congr rfl⟩
  | _ =>
    exact Command.perform_matches (nested_guided lost levels F) (fun _ _ h => by cases h)
      (fun _ h => by cases h) e he

/-- A run is the same in an engine that would go astray. -/
theorem performAll_guided (lost : (α : Type) → Act α) {cs : List Command}
    (he : e.Guided registry screen F)
    (hreload : ∀ packages, .replacePackages packages ∈ cs →
      ∀ id talk, packages.get .conversation id = .ok talk → Conversation.Closed talk) :
    Astray.performAll lost levels cs e = performAll levels cs e ∧
      ∀ e', performAll levels cs e = .ok e' → e'.Guided registry screen F := by
  induction cs generalizing e with
  | nil =>
    refine ⟨rfl, fun e' h => ?_⟩
    cases h
    exact he
  | cons c rest ih =>
    have hfirst : (c.perform (nested levels)).Agrees
        (Astray.perform lost (Astray.nested lost levels) c) e
        fun _ e' => e'.Guided registry screen F :=
      perform_guided he c fun packages hc => hreload packages (hc ▸ List.mem_cons_self)
    have hsame : (Astray.perform lost (Astray.nested lost levels) c).run e = e.perform levels c :=
      hfirst.same
    unfold Astray.performAll performAll
    rw [hsame]
    cases hrun : e.perform levels c with
    | error err =>
      refine ⟨rfl, fun e' h => ?_⟩
      cases h
    | ok r => exact ih (hfirst.ensures.of_run hrun) fun packages h =>
        hreload packages (List.mem_cons_of_mem _ h)

theorem guided_fresh (registry : Registry) (integrations : Integrations) (world : World)
    (archived : Bool) (screen : String) (clock : Calendar.Timestamp) (dice : Dice) :
    (fresh registry integrations world archived screen clock dice).Guided registry screen ∅ where
  registry_eq := rfl
  screen_eq := rfl
  talks id talk h := by
    obtain ⟨err, herr⟩ : ∃ err, Packages.empty.get .conversation id = .error err := ⟨_, rfl⟩
    cases herr.symm.trans h
  sessions _ _ h := by cases h
  follows _ h := h.elim

/-- Where the packages are the registry's own, a screen that is not known is the default one. -/
theorem start_unknownScreen {p : PlayerId} {id : ObjectId} {name : String}
    (he : e.Guided registry screen F) (hown : e.packages.CompiledWith registry)
    (h : (Talks.start n p id).run e = .ok (.error (.unknownScreen name), e')) :
    name = screen ∧ registry.screen? screen = none ∧
      ∃ talk, e.packages.get .conversation id = .ok talk ∧ talk.screen = none := by
  rw [← he.registry_eq, ← he.screen_eq]
  rw [← he.registry_eq] at hown
  cases (Talks.start_refuses id).of_run h rfl with
  | @unknownScreen _ talk hget hscreen =>
    have hnone := screen_eq_none_of_compiledWith hown hget hscreen
    rw [hnone] at hscreen ⊢
    exact ⟨rfl, hscreen, talk, hget, hnone⟩

/-- **Conversations are closed graphs.**  A conversation is built if and only if it has what it
takes, whenever its draft is carried out.  Wherever packages come out of compiling, a run would be
the same whatever the engine did where a pointer or a reply on offer leads to nothing, or the screen
that a conversation names, if it was compiled with the registry of the engine.  Each session that
the run comes to is closed, with replies on offer that are among its options; and under packages
that were compiled with the registry of the engine no screen is unknown but the default one. -/
theorem never_astray {registry : Registry} {levels : Nat} {cs : List Command}
    {integrations : Integrations} {world : World} {archived : Bool} {screen : String}
    {clock : Calendar.Timestamp} {dice : Dice}
    (hcompiled : ∀ packages, .replacePackages packages ∈ cs →
      ∃ registry' : Registry, packages.CompiledWith registry') :
    (∀ sources order id (c : ConversationSource),
      (∃ talk, c.ComesTo registry sources order id talk) ↔
        c.Buildable registry (Packages.compile registry sources) id.package) ∧
    (∀ sources id c, sources.conversation? id = some c →
      ((∃ talk, (Packages.compile registry sources).get .conversation id = .ok talk) ↔
        c.Buildable registry (Packages.compile registry sources) id.package)) ∧
    (∀ lost, Astray.performAll lost levels cs
        (fresh registry integrations world archived screen clock dice) =
      performAll levels cs (fresh registry integrations world archived screen clock dice)) ∧
    ∀ e, performAll levels cs (fresh registry integrations world archived screen clock dice) =
        .ok e →
      (∀ p session, e.sessions.find? p = some session → session.Guided) ∧
      (e.packages.CompiledWith registry → ∀ levels p id name e',
        e.perform levels (.request p (.startConversation id)) =
          .ok ((.error (.unknownScreen name) : Except TalkError TalkState), e') →
        name = screen ∧ registry.screen? screen = none ∧
          ∃ talk, e.packages.get .conversation id = .ok talk ∧ talk.screen = none) := by
  have hreload : ∀ packages, .replacePackages packages ∈ cs →
      ∀ id talk, packages.get .conversation id = .ok talk → Conversation.Closed talk := by
    intro packages hmem id talk htalk
    obtain ⟨registry', sources, rfl⟩ := hcompiled packages hmem
    exact (compile_guided htalk).closed
  have hfresh := guided_fresh registry integrations world archived screen clock dice
  refine ⟨fun _ order _ _ => ConversationSource.exists_comesTo_iff order,
    fun _ _ _ => compile_conversation_iff,
    fun lost => (performAll_guided lost hfresh hreload).1, fun e hrun => ?_⟩
  have he := (performAll_guided (fun _ => Act.halt .tooDeep) hfresh hreload).2 e hrun
  exact ⟨fun p session hsession => (he.sessions p session hsession).1,
    fun hown levels p id name e' h => start_unknownScreen (n := nested levels) he hown h⟩

/-- Talking to the keeper of the inn leads nowhere amiss. -/
theorem never_astray_of_visit : ∃ e session, performAll 1 visit idle = .ok e ∧
    e.sessions.find? ⟨"ann"⟩ = some session ∧ session.Guided ∧
    ∀ lost, Astray.performAll lost 1 visit idle = .ok e := by
  have hcompile : Packages.compile (Vocabulary.registry ⟨true, true⟩) inn =
      compileWithin (Vocabulary.registry ⟨true, true⟩) inn 3 :=
    (compileWithin_eq (show 2 < 3 by decide) (by decide +kernel)).symm
  have h : passes (performAll 1 visit idle)
      (fun e => (e.sessions.find? ⟨"ann"⟩).isSome) = true := by
    rw [visit, hcompile]
    decide +kernel
  obtain ⟨e, hrun, hsome⟩ := exists_of_passes h
  obtain ⟨session, hsession⟩ := Option.isSome_iff_exists.1 hsome
  have hcompiled : ∀ packages, .replacePackages packages ∈ visit →
      ∃ registry : Registry, packages.CompiledWith registry := by
    intro packages hmem
    obtain rfl : packages = _ := by simpa [visit] using hmem
    exact ⟨_, _, rfl⟩
  have hsame : ∀ lost, Astray.performAll lost 1 visit idle = performAll 1 visit idle :=
    (never_astray hcompiled).2.2.1
  have hguided : ∀ p session, e.sessions.find? p = some session → session.Guided :=
    ((never_astray hcompiled).2.2.2 e hrun).1
  exact ⟨e, session, hrun, hsession, hguided _ _ hsession, fun lost => (hsame lost).trans hrun⟩

end Engine

end Questbook
