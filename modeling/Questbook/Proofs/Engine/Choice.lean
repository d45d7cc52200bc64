/-
Questbook/Proofs/Engine/Choice.lean

A conversation waits at a choice.

Following pointers comes to one of three things: no line is open, or the line leaves no reply open,
and then the session ends; or the line is shown with its open replies, and the session waits for
one of them to be picked.  `First`, `Offers` and `Shown` say so in terms of the options and their
conditions, each held to the states in which the conditions were looked at.  While content is
running that asks for no conversations, no session changes but the one that is being carried on.

Main result: `Talks.answer_turn`, what a request makes of a player's session.
-/
import Questbook.Proofs.Engine.Authored

namespace Questbook

variable {n : Nested} {p q : PlayerId} {A : Set Demand} {K : Packages} {H : Halt → Prop}

/-! ### What is shown -/

namespace Talks

/-- The first of some options whose conditions hold, if there is one, looked for from one state to
another. -/
inductive First (n : Nested) (p : PlayerId) (options : Table String TalkOption) :
    List String → Engine → Option (String × TalkOption) → Engine → Prop where
  | none {e : Engine} : First n p options [] e none e
  | skip {name : String} {rest : List String} {option : TalkOption} {e e₁ e₂ : Engine}
      {found : Option (String × TalkOption)} (hoption : options.find? name = some option)
      (hclosed : (allHold n p option.conditions).run e = .ok (false, e₁))
      (hrest : First n p options rest e₁ found e₂) : First n p options (name :: rest) e found e₂
  | here {name : String} {rest : List String} {option : TalkOption} {e e₁ : Engine}
      (hoption : options.find? name = some option)
      (hopen : (allHold n p option.conditions).run e = .ok (true, e₁)) :
      First n p options (name :: rest) e (some (name, option)) e₁

/-- Those of some options whose conditions hold, in their order and with their texts, looked for
from one state to another. -/
inductive Offers (n : Nested) (p : PlayerId) (options : Table String TalkOption) :
    List String → Engine → List (String × String) → Engine → Prop where
  | none {e : Engine} : Offers n p options [] e [] e
  | skip {name : String} {rest : List String} {option : TalkOption} {e e₁ e₂ : Engine}
      {offered : List (String × String)} (hoption : options.find? name = some option)
      (hclosed : (allHold n p option.conditions).run e = .ok (false, e₁))
      (hrest : Offers n p options rest e₁ offered e₂) :
      Offers n p options (name :: rest) e offered e₂
  | here {name text : String} {rest : List String} {option : TalkOption} {e e₁ e₂ e₃ : Engine}
      {offered : List (String × String)} (hoption : options.find? name = some option)
      (hopen : (allHold n p option.conditions).run e = .ok (true, e₁))
      (htext : (option.text.render n p).run e₁ = .ok (text, e₂))
      (hrest : Offers n p options rest e₂ offered e₃) :
      Offers n p options (name :: rest) e ((name, text) :: offered) e₃

/-- What is shown of a conversation: a line by its name, who speaks it, its text, and the replies on
offer by name and text. -/
structure Scene where
  name : String
  speaker : String
  text : String
  offered : List (String × String)

/-- Following pointers from a state, a line is shown: it is the first whose conditions hold, its
events have been fired, and then its own pointers have been looked at for open replies. -/
def Shown (n : Nested) (p : PlayerId) (talk : Conversation) (pointers : List String) (e : Engine)
    (scene : Scene) : Prop :=
  ∃ line e₁ e₂ e₃ e₄ e₅,
    First n p talk.npcOptions pointers e (some (scene.name, line)) e₁ ∧
    (Action.fireEach n p line.events).run e₁ = .ok ((), e₂) ∧
    Offers n p talk.playerOptions line.pointers e₂ scene.offered e₃ ∧
    (talk.quester.render n p).run e₃ = .ok (scene.speaker, e₄) ∧
    (line.text.render n p).run e₄ = .ok (scene.text, e₅)

/-- A session shows a line: it waits for one of the replies, the line is the last one of its
history, and the prompt on its screen says the same. -/
structure Displays (session : Session) (scene : Scene) : Prop where
  phase : session.phase = .selecting scene.text scene.offered
  offered : scene.offered ≠ []
  history : session.history.getLast? = some scene.name
  prompt : session.screen.prompt = ⟨scene.speaker, scene.text, scene.offered.map Prod.snd⟩

/-- What following pointers comes to: the answer, and what becomes of the session. -/
inductive Leads (n : Nested) (p : PlayerId) (talk : Conversation) (pointers : List String)
    (e : Engine) : TalkState → Option Session → Prop where
  /-- No line is open. -/
  | silence {e₁ : Engine} (hnone : First n p talk.npcOptions pointers e none e₁) :
      Leads n p talk pointers e .ended none
  /-- The line leaves no reply open. -/
  | farewell {scene : Scene} (hshown : Shown n p talk pointers e scene)
      (hnone : scene.offered = []) :
      Leads n p talk pointers e .ended none
  /-- The line is shown with its open replies. -/
  | choice {scene : Scene} {session : Session} (hshown : Shown n p talk pointers e scene)
      (htalk : session.talk = talk) (hdisplays : Displays session scene) :
      Leads n p talk pointers e (.selecting talk.id scene.text (scene.offered.map Prod.snd))
        (some session)

/-- A request sets out to follow pointers of a conversation from a state. -/
inductive Begins (n : Nested) (p : PlayerId) (e : Engine) :
    Request → Conversation → List String → Engine → Prop where
  /-- A conversation is started where there is none, and its first lines are followed. -/
  | start {id : ObjectId} {talk : Conversation} {style : Screen.Style}
      (hdefined : e.packages.get .conversation id = .ok talk)
      (hstyle : e.registry.screen? (talk.screen.getD e.defaultScreen) = some style)
      (hfree : e.sessions.find? p = none) :
      Begins n p e (.startConversation id) talk talk.first
        { e with sessions := (e.sessions.start p talk (Screen.ofStyle style)).2 }
  /-- A reply on offer is picked, its events are fired, and its pointers are followed. -/
  | select {session : Session} {index : Nat} {text name shown : String}
      {offered : List (String × String)} {reply : TalkOption} {e₁ : Engine}
      (hsession : e.sessions.find? p = some session)
      (hphase : session.phase = .selecting text offered)
      (hoffered : offered[index]? = some (name, shown))
      (hreply : session.talk.playerOptions.find? name = some reply)
      (hevents : (Action.fireEach n p reply.events).run
        { e with sessions := e.sessions.put p { session with phase := .resolving } } =
          .ok ((), e₁)) :
      Begins n p e (.selectOption index) session.talk reply.pointers e₁

/-- What a request makes of a player's session. -/
inductive Turn (n : Nested) (p : PlayerId) (e : Engine) (r : Request) : Option Session → Prop where
  /-- Nothing has happened. -/
  | still : Turn n p e r (e.sessions.find? p)
  /-- The conversation is over. -/
  | ended : Turn n p e r none
  /-- The page has been turned. -/
  | paged {session : Session} {screen : Screen} (hsession : e.sessions.find? p = some session)
      (hprompt : screen.prompt = session.screen.prompt) :
      Turn n p e r (some { session with screen })
  /-- A line has been shown. -/
  | shown {talk : Conversation} {pointers : List String} {e₁ : Engine} {scene : Scene}
      {session : Session} (hbegins : Begins n p e r talk pointers e₁)
      (hshown : Shown n p talk pointers e₁ scene) (htalk : session.talk = talk)
      (hdisplays : Displays session scene) : Turn n p e r (some session)

theorem First.find? {options : Table String TalkOption} {names : List String} {e e' : Engine}
    {name : String} {option : TalkOption}
    (h : First n p options names e (some (name, option)) e') :
    options.find? name = some option := by
  generalize hfound : some (name, option) = found at h
  induction h with
  | none => cases hfound
  | skip _ _ _ ih => exact ih hfound
  | here hoption _ =>
    cases hfound
    exact hoption

/-- What is on offer is among the options that the pointers lead to, in their order. -/
theorem Offers.sublist {options : Table String TalkOption} {names : List String} {e e' : Engine}
    {offered : List (String × String)} (h : Offers n p options names e offered e') :
    (offered.map Prod.fst).Sublist names := by
  induction h with
  | none => exact .slnil
  | skip _ _ _ ih => exact ih.cons _
  | here _ _ _ _ ih => exact ih.cons_cons _

/-- What is on offer is an option. -/
theorem Offers.exists_option {options : Table String TalkOption} {names : List String}
    {e e' : Engine} {offered : List (String × String)} (h : Offers n p options names e offered e')
    {name text : String} (hmem : (name, text) ∈ offered) :
    ∃ option, options.find? name = some option := by
  induction h with
  | none => cases hmem
  | skip _ _ _ ih => exact ih hmem
  | here hoption _ _ _ ih =>
    rcases List.mem_cons.1 hmem with heq | hmem
    · cases heq
      exact ⟨_, hoption⟩
    · exact ih hmem

end Talks

/-! ### Who has which session -/

namespace Engine

/-- The packages `K` are in force, what waits has come out of such ones, and a player has this
session. -/
structure Seated (A : Set Demand) (K : Packages) (p : PlayerId) (seat : Option Session)
    (e : Engine) : Prop where
  authored : e.Authored A Conversation.Closed K
  seat : e.sessions.find? p = seat

variable {e : Engine} {seat : Option Session}

theorem seated_keptByAll (hK : K.Authored A Conversation.Closed) (q : PlayerId) :
    KeptByAll q A true K fun _ : Unit => Seated A K p seat := by
  have hauthored := (authored_keptByAll hK q).changes ()
  exact
    { within := hK.within
      changes := fun _ =>
        { dice := fun he => ⟨hauthored.dice he.1, he.2⟩
          place := fun spot block he => ⟨hauthored.place spot block he.1, he.2⟩
          join := fun avatar he => ⟨hauthored.join avatar he.1, he.2⟩
          render := fun frames he => ⟨hauthored.render frames he.1, he.2⟩
          note := fun entry he => ⟨hauthored.note entry he.1, he.2⟩
          later := fun he hown hagenda => ⟨hauthored.later he.1 hown hagenda, he.2⟩
          packages := fun he => hauthored.packages he.1
          start := fun he hdefined hinactive =>
            ⟨hauthored.start he.1 hdefined hinactive, by rw [sessions_begun, he.2]⟩
          store := fun he hactive hdefined hmade =>
            ⟨hauthored.store he.1 hactive hdefined hmade, he.2⟩
          cancel := fun he hactive => ⟨hauthored.cancel he.1 hactive, he.2⟩
          prune := fun held he => ⟨hauthored.prune held he.1, he.2⟩ }
      complete := fun he _ => ⟨(), ⟨he.1.congr rfl rfl rfl, he.2⟩,
        fun _ he => ⟨he.1.congr rfl rfl rfl, he.2⟩⟩ }

/-- Putting off a check leaves the session as it is. -/
theorem seated_keptByDeferral (q : PlayerId) : KeptByDeferral q A (Seated A K p seat) where
  defer he hcheck hagenda := ⟨(authored_keptByDeferral q).defer he.1 hcheck hagenda, he.2⟩

/-- No one's conversation changes the session of another player. -/
theorem seated_keptByTalk (hK : K.Authored A Conversation.Closed) (hne : q ≠ p) :
    KeptByTalk q A true K (Seated A K p seat) := by
  have hauthored := authored_keptByTalk hK q
  exact
    { talk := fun he hsession => hauthored.talk he.1 hsession
      seat := fun screen he hdefined hfree =>
        ⟨hauthored.seat screen he.1 hdefined hfree,
          (Table.find?_insert_of_ne _ _ hne).trans he.2⟩
      put := fun session' he hsession htalk hnumber hstyle =>
        ⟨hauthored.put session' he.1 hsession htalk hnumber hstyle,
          (Table.find?_insert_of_ne _ _ hne).trans he.2⟩
      drop := fun he hsession =>
        ⟨hauthored.drop he.1 hsession, (Table.find?_erase_of_ne _ hne).trans he.2⟩
      tell := fun number what he => ⟨hauthored.tell number what he.1, he.2⟩ }

/-- A session that shows something is the player's. -/
theorem showing_seated {session : Session} (session' : Session)
    (hK : K.Authored A Conversation.Closed)
    (he : e.Authored A Conversation.Closed K) (hsession : e.sessions.find? p = some session)
    (htalk : session'.talk = session.talk) (hnumber : session'.number = session.number)
    (hstyle : session'.screen.style = session.screen.style) (frames : List Frame) :
    (e.showing p session' frames).Seated A K p (some session') :=
  ⟨(authored_keptByTalk hK p).tell _ _
      ((authored_keptByTalk hK p).put session' he hsession htalk hnumber hstyle),
    Table.find?_insert_self _ _ _⟩

theorem seated_keptByHost (hK : K.Authored A Conversation.Closed) :
    KeptByHost A true K (Seated A K p seat) fun _ => True := by
  have hauthored := authored_keptByHost (H := fun _ => True) hK trivial
  exact
    { within := hK.within
      packages := fun he => hauthored.packages he.1
      note := fun entry he => ⟨hauthored.note entry he.1, he.2⟩
      remind := fun he hreminders hagenda => ⟨hauthored.remind he.1 hreminders hagenda, he.2⟩
      tick := fun he => ⟨hauthored.tick he.1, he.2⟩
      tasks := fun he hs => hauthored.tasks he.1 hs
      clock := fun clock he => ⟨hauthored.clock clock he.1, he.2⟩
      world := fun world he => ⟨hauthored.world world he.1, he.2⟩
      overflow := trivial }

end Engine

/-! ### How a conversation goes on -/

namespace Talks

open Engine

section

variable {P : Engine → Prop} {options : Table String TalkOption} {names : List String} {e : Engine}

theorem firstOpen_first (hP : KeptByContent n p A true P H)
    (hA : ∀ name o, options.find? name = some o → o.demands true ⊆ A)
    (hnames : ∀ name ∈ names, ∃ o, options.find? name = some o) (he : P e) :
    (firstOpen n p options names).Ensures e H fun found e' =>
      First n p options names e found e' ∧ P e' := by
  induction names generalizing e with
  | nil => exact ⟨.none, he⟩
  | cons name rest ih =>
    obtain ⟨option, hoption⟩ := hnames name List.mem_cons_self
    have hrest : ∀ name ∈ rest, ∃ o, options.find? name = some o :=
      fun name h => hnames name (List.mem_cons_of_mem _ h)
    have hconditions := hA name option hoption
    simp only [TalkOption.demands, Set.union_subset_iff] at hconditions
    simp only [firstOpen, hoption]
    refine Act.ensures_bind (allHold_keeps hP hconditions.1.2 e he) fun met e₁ hrun he₁ => ?_
    cases met with
    | true => exact ⟨.here hoption hrun, he₁⟩
    | false => exact (ih hrest he₁).mono fun _ _ _ h => ⟨.skip hoption hrun h.1, h.2⟩

theorem allOpen_offers (hP : KeptByContent n p A true P H)
    (hA : ∀ name o, options.find? name = some o → o.demands true ⊆ A)
    (hnames : ∀ name ∈ names, ∃ o, options.find? name = some o) (he : P e) :
    (allOpen n p options names).Ensures e H fun offered e' =>
      Offers n p options names e offered e' ∧ P e' := by
  induction names generalizing e with
  | nil => exact ⟨.none, he⟩
  | cons name rest ih =>
    obtain ⟨option, hoption⟩ := hnames name List.mem_cons_self
    have hrest : ∀ name ∈ rest, ∃ o, options.find? name = some o :=
      fun name h => hnames name (List.mem_cons_of_mem _ h)
    have hoptionA := hA name option hoption
    simp only [TalkOption.demands, Set.union_subset_iff] at hoptionA
    simp only [allOpen, hoption]
    refine Act.ensures_bind (allHold_keeps hP hoptionA.1.2 e he) fun met e₁ hrun he₁ => ?_
    cases met with
    | true =>
      refine Act.ensures_bind (RichText.render_keeps hP hoptionA.1.1 e₁ he₁)
        fun text e₂ htext he₂ => ?_
      exact Act.ensures_bind (ih hrest he₂) fun offered e₃ _ h =>
        ⟨.here hoption hrun htext h.1, h.2⟩
    | false => exact (ih hrest he₁).mono fun _ _ _ h => ⟨.skip hoption hrun h.1, h.2⟩

end

/-- Replies are offered after those that are offered already. -/
theorem prompt_foldl_offer (texts : List String) (screen : Screen) :
    (texts.foldl Screen.offer screen).prompt =
      { screen.prompt with options := screen.prompt.options ++ texts } := by
  induction texts generalizing screen with
  | nil => simp
  | cons text rest ih => simp [ih, Screen.offer]

theorem prompt_navigate (screen : Screen) (command : String) :
    (screen.navigate command).2.1.prompt = screen.prompt := by
  unfold Screen.navigate
  split
  · dsimp only
    split
    · rfl
    · split <;> rfl
  · rfl

section

variable (hP : ∀ seat, KeptByContent n p A true (Seated A K p seat) H)
  (hK : K.Authored A Conversation.Closed)
variable {e : Engine} {session : Session} {seat : Option Session}

include hP hK

theorem finish_ensures (he : e.Seated A K p (some session)) (how : Parting) :
    (finish n p session.number how).Ensures e H fun _ e' => e'.Seated A K p none := by
  have hheld := Sessions.held?_eq_some_iff.2 ⟨he.seat, rfl⟩
  have hA := (he.authored.talks p session he.seat).1
  simp only [Conversation.demands, Set.union_subset_iff] at hA
  have htold : ∀ {e : Engine} (number : Nat) (what : Moment), e.Seated A K p none →
      (e.told p number what).Seated A K p none :=
    fun number what he => ⟨(authored_keptByTalk hK p).tell number what he.authored, he.seat⟩
  have hdropped : ({ e with sessions := e.sessions.drop p } : Engine).Seated A K p none :=
    ⟨(authored_keptByTalk hK p).drop he.authored he.seat, Table.find?_erase_self _ _⟩
  have hparted : (e.parted p session how).Seated A K p none := htold _ _ (htold _ _ hdropped)
  refine Act.ensures_get_bind ?_
  rw [hheld]
  refine Act.ensures_bind (R := fun _ e' => e'.Seated A K p none) ?_ fun _ _ _ he => he
  refine Act.ensures_bind (R := fun _ e' => e'.Seated A K p none) hparted fun _ e₁ _ he₁ => ?_
  split
  · exact farewell_keeps (hP none) htold hA.1.1.2 e₁ he₁
  · exact he₁

theorem conclude_ensures (he : e.Seated A K p (some session)) (how : Parting) :
    (conclude n p session.number how).Ensures e H fun answer e' =>
      answer = .ended ∧ e'.Seated A K p none :=
  Act.ensures_bind (R := fun _ e' => e'.Seated A K p none)
    (Act.ensures_map (finish_ensures hP hK he how)) fun _ _ _ he => ⟨rfl, he⟩

theorem present_ensures (he : e.Seated A K p (some session)) (scene : Scene) :
    (present n p session.number scene.name scene.speaker scene.text scene.offered).Ensures e H
      fun answer e' => (scene.offered = [] ∧ answer = .ended ∧ e'.Seated A K p none) ∨
        ∃ session', session'.talk = session.talk ∧ Displays session' scene ∧
          answer = .selecting session.talk.id scene.text (scene.offered.map Prod.snd) ∧
          e'.Seated A K p (some session') := by
  have hheld := Sessions.held?_eq_some_iff.2 ⟨he.seat, rfl⟩
  let session' := shown session scene.name scene.speaker scene.text scene.offered
  refine Act.ensures_get_bind ?_
  rw [hheld]
  refine Act.ensures_bind (R := fun _ e' => e'.Seated A K p (some session'))
    (showing_seated session' hK he.authored he.seat rfl rfl (style_shown ..) _)
    fun _ e₁ _ he₁ => ?_
  split
  · rename_i hempty
    refine (conclude_ensures hP hK he₁ _).mono fun answer e' _ h => ?_
    exact .inl ⟨List.isEmpty_iff.1 hempty, h⟩
  · rename_i hempty
    refine .inr ⟨session', rfl, ?_, rfl, he₁⟩
    exact
      { phase := rfl
        offered := fun h => hempty (List.isEmpty_iff.2 h)
        history := List.getLast?_concat
        prompt := prompt_foldl_offer _ _ }

/-- Following pointers that all lead to a line. -/
theorem advance_leads (he : e.Seated A K p (some session)) {pointers : List String}
    (hpointers : ∀ name ∈ pointers, ∃ o, session.talk.npcOptions.find? name = some o) :
    (advance n p session.number session.talk pointers).Ensures e H fun answer e' =>
      ∃ seat, Leads n p session.talk pointers e answer seat ∧ e'.Seated A K p seat := by
  obtain ⟨hA, hclosed⟩ := he.authored.talks p session he.seat
  simp only [Conversation.demands, Set.union_subset_iff] at hA
  obtain ⟨⟨⟨hquester, -⟩, hnpc⟩, hplayer⟩ := hA
  have hlines : ∀ name o, session.talk.npcOptions.find? name = some o → o.demands true ⊆ A :=
    fun name o h d hd => hnpc ⟨name, o, h, hd⟩
  have hreplies : ∀ name o, session.talk.playerOptions.find? name = some o → o.demands true ⊆ A :=
    fun name o h d hd => hplayer ⟨name, o, h, hd⟩
  refine Act.ensures_bind (firstOpen_first (hP _) hlines hpointers he)
    fun found e₁ _ hfound => ?_
  obtain ⟨hfirst, he₁⟩ := hfound
  rcases found with _ | ⟨name, line⟩
  · refine (conclude_ensures hP hK he₁ _).mono fun answer e' _ h => ?_
    exact ⟨none, h.1 ▸ .silence hfirst, h.2⟩
  · have hline := hlines name line hfirst.find?
    simp only [TalkOption.demands, Set.union_subset_iff] at hline
    refine Act.ensures_bind (Action.fireEach_keeps (hP _) hline.2 e₁ he₁) fun _ e₂ hevents he₂ => ?_
    refine Act.ensures_get_bind ?_
    -- Events do not touch the session here, so that the talk goes on.
    rw [if_pos (Sessions.isCurrent_of_find? he₂.seat)]
    refine Act.ensures_bind (allOpen_offers (hP _) hreplies (hclosed.npc name line hfirst.find?)
      he₂) fun offered e₃ _ hoffered => ?_
    obtain ⟨hoffers, he₃⟩ := hoffered
    refine Act.ensures_bind (RichText.render_keeps (hP _) hquester e₃ he₃)
      fun speaker e₄ hspeaker he₄ => ?_
    refine Act.ensures_bind (RichText.render_keeps (hP _) hline.1.1 e₄ he₄)
      fun text e₅ htext he₅ => ?_
    have hshown : Shown n p session.talk pointers e ⟨name, speaker, text, offered⟩ :=
      ⟨line, e₁, e₂, e₃, e₄, e₅, hfirst, hevents, hoffers, hspeaker, htext⟩
    refine (present_ensures hP hK he₅ ⟨name, speaker, text, offered⟩).mono fun answer e' _ h => ?_
    rcases h with ⟨hnone, rfl, he'⟩ | ⟨session', htalk, hdisplays, rfl, he'⟩
    · exact ⟨none, .farewell hshown hnone, he'⟩
    · exact ⟨some session', .choice hshown htalk hdisplays, he'⟩

/-- Following a reply whose events have just been fired. -/
theorem follow_leads (he : e.Seated A K p (some session)) {reply : TalkOption} {name : String}
    (hreply : session.talk.playerOptions.find? name = some reply) :
    (follow n p session reply).Ensures e H fun answer e' =>
      ∃ e₁ seat, (Action.fireEach n p reply.events).run e = .ok ((), e₁) ∧
        Leads n p session.talk reply.pointers e₁ answer seat ∧ e'.Seated A K p seat := by
  obtain ⟨hA, hclosed⟩ := he.authored.talks p session he.seat
  have hreplyA : reply.demands true ⊆ A := by
    simp only [Conversation.demands, Set.union_subset_iff] at hA
    exact fun d hd => hA.2 ⟨name, reply, hreply, hd⟩
  simp only [TalkOption.demands, Set.union_subset_iff] at hreplyA
  refine Act.ensures_bind (Action.fireEach_keeps (hP _) hreplyA.2 e he) fun _ e₁ hevents he₁ => ?_
  refine Act.ensures_get_bind ?_
  rw [if_pos (Sessions.isCurrent_of_find? he₁.seat)]
  split
  · rename_i hempty
    refine (conclude_ensures hP hK he₁ _).mono fun answer e' _ h => ?_
    have hsilence : First n p session.talk.npcOptions reply.pointers e₁ none e₁ := by
      rw [List.isEmpty_iff.1 hempty]
      exact .none
    exact ⟨e₁, none, hevents, h.1 ▸ .silence hsilence, h.2⟩
  · refine (advance_leads hP hK he₁ (hclosed.player name reply hreply)).mono
      fun answer e' _ hleads => ?_
    obtain ⟨seat, hleads, he'⟩ := hleads
    exact ⟨e₁, seat, hevents, hleads, he'⟩

/-- Picking a reply from those that a session offers. -/
theorem select_leads (he : e.Seated A K p (some session)) {text : String}
    {offered : List (String × String)} (hphase : session.phase = .selecting text offered)
    (hoptions : ∀ name text, (name, text) ∈ offered →
      ∃ o, session.talk.playerOptions.find? name = some o) (index : Nat) :
    (select n p index).Ensures e H fun answer e' =>
      (offered[index]? = none ∧ answer = .error (.invalidSelection index offered.length) ∧ e' = e) ∨
      ∃ name shown reply e₁ state seat, offered[index]? = some (name, shown) ∧
        session.talk.playerOptions.find? name = some reply ∧
        (Action.fireEach n p reply.events).run
          { e with sessions := e.sessions.put p { session with phase := .resolving } } =
            .ok ((), e₁) ∧
        Leads n p session.talk reply.pointers e₁ state seat ∧ answer = .ok state ∧
        e'.Seated A K p seat := by
  refine Act.ensures_get_bind ?_
  rw [he.seat]
  dsimp only
  rw [hphase]
  dsimp only
  cases hoffered : offered[index]? with
  | none => exact .inl ⟨rfl, rfl, rfl⟩
  | some reply =>
    obtain ⟨name, shown⟩ := reply
    obtain ⟨reply, hreply⟩ := hoptions name shown (List.mem_of_getElem? hoffered)
    let session' : Session := { session with phase := .resolving }
    have hput : ({ e with sessions := e.sessions.put p session' } : Engine).Seated A K p
        (some session') :=
      ⟨(authored_keptByTalk hK p).put session' he.authored he.seat rfl rfl rfl,
        Table.find?_insert_self _ _ _⟩
    have hfollow := follow_leads hP hK hput hreply
    refine Act.ensures_modify_bind ?_
    rw [hreply]
    refine Act.ensures_map (hfollow.mono fun state e' _ h => ?_)
    obtain ⟨e₁, seat, hevents, hleads, he'⟩ := h
    exact .inr ⟨name, shown, reply, e₁, state, seat, rfl, hreply, hevents, hleads, rfl, he'⟩

/-- Starting a conversation. -/
theorem start_turn (he : e.Seated A K p seat) (id : ObjectId) :
    (start n p id).Ensures e H fun _ e' =>
      ∃ seat', Turn n p e (.startConversation id) seat' ∧ e'.Seated A K p seat' := by
  have hstill : Turn n p e (.startConversation id) seat := he.seat ▸ .still
  refine Act.ensures_get_bind ?_
  split
  · exact ⟨seat, hstill, he⟩
  · rename_i talk hdefined
    dsimp only
    split
    · exact ⟨seat, hstill, he⟩
    · rename_i style hstyle
      split
      · exact ⟨seat, hstill, he⟩
      · rename_i hfree
        have hfree : e.sessions.find? p = none := by simpa using hfree
        have hdefined' : K.get .conversation id = .ok talk := he.authored.packages ▸ hdefined
        let session : Session := ⟨e.sessions.nextNumber, talk, .resolving, [], Screen.ofStyle style⟩
        have hseated : ({ e with
            sessions := (e.sessions.start p talk (Screen.ofStyle style)).2 } : Engine).Seated A K p
              (some session) :=
          ⟨(authored_keptByTalk hK p).seat _ he.authored hdefined' hfree,
            Table.find?_insert_self _ _ _⟩
        refine Act.ensures_modify_bind ?_
        refine Act.ensures_map ((advance_leads hP hK hseated
          (hK.talks id talk hdefined').first).mono fun state e' _ h => ?_)
        obtain ⟨seat', hleads, he'⟩ := h
        refine ⟨seat', ?_, he'⟩
        cases hleads with
        | silence | farewell => exact .ended
        | choice hshown htalk hdisplays =>
          exact .shown (.start hdefined hstyle hfree) hshown htalk hdisplays

omit hP in
/-- Turning the page. -/
theorem navigate_turn (he : e.Seated A K p seat) (command : String) :
    (navigate p command).Ensures e H fun _ e' =>
      ∃ seat', Turn n p e (.navigate command) seat' ∧ e'.Seated A K p seat' := by
  have hstill : Turn n p e (.navigate command) seat := he.seat ▸ .still
  refine Act.ensures_get_bind ?_
  split
  · exact ⟨seat, hstill, he⟩
  · rename_i session hsession
    split
    · exact ⟨seat, hstill, he⟩
    · let session' : Session := { session with screen := (session.screen.navigate command).2.1 }
      refine Act.ensures_bind (R := fun _ e' => e'.Seated A K p (some session'))
        (showing_seated session' hK he.authored hsession rfl rfl (Screen.style_navigate ..) _)
        fun _ e₁ _ he₁ => ?_
      exact ⟨some session', .paged hsession (prompt_navigate _ _), he₁⟩

/-- Ending a conversation. -/
theorem leave_turn (he : e.Seated A K p seat) (how : Parting) (r : Request) :
    (leave n p how).Ensures e H fun _ e' =>
      ∃ seat', Turn n p e r seat' ∧ e'.Seated A K p seat' := by
  refine Act.ensures_get_bind ?_
  split
  · exact ⟨seat, he.seat ▸ .still, he⟩
  · rename_i session hsession
    have he : e.Seated A K p (some session) := ⟨he.authored, hsession⟩
    exact (finish_ensures hP hK he how).mono fun _ e' _ he' => ⟨none, .ended, he'⟩

/-- A request to talk, with a session that waits at a choice if there is one. -/
theorem answer_turn (he : e.Seated A K p seat) {r : Request} (hr : r.ofTalk = true)
    (hchoice : ∀ session, seat = some session → ∃ text offered,
      session.phase = .selecting text offered ∧
        ∀ name text, (name, text) ∈ offered →
          ∃ o, session.talk.playerOptions.find? name = some o) :
    (r.answer n p).Ensures e H fun _ e' =>
      ∃ seat', Turn n p e r seat' ∧ e'.Seated A K p seat' := by
  cases r with
  | startConversation id => exact start_turn hP hK he id
  | navigate command => exact navigate_turn hK he command
  | endConversation => exact leave_turn hP hK he .dismissed _
  | disconnect => exact leave_turn hP hK he .disconnected _
  | selectOption index =>
    cases seat with
    | none =>
      refine Act.ensures_get_bind ?_
      rw [he.seat]
      exact ⟨none, .ended, he⟩
    | some session =>
      obtain ⟨text, offered, hphase, hoptions⟩ := hchoice session rfl
      refine (select_leads hP hK he hphase hoptions index).mono fun answer e' _ h => ?_
      rcases h with ⟨-, -, rfl⟩ | ⟨name, shown, reply, e₁, state, seat', hoffered, hreply,
        hevents, hleads, -, he'⟩
      · exact ⟨some session, he.seat ▸ .still, he⟩
      · refine ⟨seat', ?_, he'⟩
        cases hleads with
        | silence | farewell => exact .ended
        | choice hshown htalk hdisplays =>
          exact .shown (.select he.seat hphase hoffered hreply hevents) hshown htalk hdisplays
  | talkState | startObjective | cancelObjective | completeObjective | note => cases hr

end

end Talks

end Questbook
