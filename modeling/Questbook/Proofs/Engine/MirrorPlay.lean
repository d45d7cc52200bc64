/-
Questbook/Proofs/Engine/MirrorPlay.lean

The same play in two engines.

Goals and conversations are made of content, so that they come to the same wherever content does.  A
conversation holds the number of its session, under which it finds in the one engine what it finds
under the number that stands for it in the other.  What is left are the changes of sessions and of
progress themselves: `MirroredByPlay` lists them, and from it follows that all the engine does for a
player is done in both engines, on every level.

Main results: `Request.answer_mirrored` and `MirroredByPlay.content`.
-/
import Questbook.Proofs.Engine.Levels
import Questbook.Proofs.Engine.Mirror

namespace Questbook

variable {α : Type} {R : Names → Engine → Engine → Prop} {N : Names} {e e' : Engine} {n : Nested}
  {p : PlayerId} {A : Set Demand} {levels : Nat}

/-! ### Game events and goals -/

theorem Goal.handle_mirrored (hP : MirroredByContent n p A R) (goal : Goal) (data : Json)
    (event : GameEvent) :
    (goal.handle n p data event).Mirrored R := by
  cases goal with
  | arrow target range =>
    simp only [Goal.handle]
    split
    · split <;> exact Eval.mirrored_pure _
    · exact Eval.mirrored_throw _
  | reach target range =>
    simp only [Goal.handle]
    split
    · split
      · exact Eval.mirrored_bind (Quantity.resolve_mirrored hP range) fun _ => Eval.mirrored_pure _
      · exact Eval.mirrored_pure _
    · exact Eval.mirrored_throw _
  | kill entities amount =>
    simp only [Goal.handle]
    split
    · exact Eval.mirrored_throw _
    · split
      · split <;> exact Eval.mirrored_pure _
      · exact Eval.mirrored_pure _
  | custom goal =>
    simp only [Goal.handle]
    split
    · exact Script.run_mirrored hP _
    · exact Eval.mirrored_throw _

theorem Recheck.passes_mirrored (hP : MirroredByContent n p A R) (check : Recheck) :
    (check.passes n p).Mirrored R := by
  cases check with
  | landing target range projectile reported =>
    refine Eval.mirrored_get_bind fun N e e' h => ?_
    rw [(hP.world h).projectile]
    exact Eval.mirrored_bind (Quantity.resolve_mirrored hP range) (fun _ => Eval.mirrored_pure _)
      N e e' h
  | custom script => exact Script.run_mirrored hP script

/-! ### What is done for a player -/

/-- A player is in the same conversation in engines that go together, and its changes lead to such
engines. -/
structure MirroredByTalk (p : PlayerId) (A : Set Demand) (R : Names → Engine → Engine → Prop) :
    Prop where
  registry {N : Names} {e e' : Engine} (h : R N e e') : e'.registry = e.registry
  defaultScreen {N : Names} {e e' : Engine} (h : R N e e') : e'.defaultScreen = e.defaultScreen
  within {N : Names} {e e' : Engine} (h : R N e e') : e.packages.Within A true
  sessions {N : Names} {e e' : Engine} (h : R N e e') : e.sessions.Twin p A N e'.sessions
  /-- Each session has one number on either side. -/
  numbers {N : Names} {e e' : Engine} (h : R N e e') {a b a' b' : Nat} (ha : N .session a a')
    (hb : N .session b b') : a = b ↔ a' = b'
  /-- A conversation is begun. -/
  seat {N : Names} {e e' : Engine} {talk : Conversation} (h : R N e e') (screen : Screen)
    (hA : talk.demands true ⊆ A) : ∃ N', N ≤ N' ∧
      N' .session e.sessions.nextNumber e'.sessions.nextNumber ∧
      R N' { e with sessions := (e.sessions.start p talk screen).2 }
        { e' with sessions := (e'.sessions.start p talk screen).2 }
  /-- A conversation goes on. -/
  put {N : Names} {e e' : Engine} {session session' : Session} (h : R N e e')
    (hsession : session.Twin A N session') :
    R N { e with sessions := e.sessions.put p session }
      { e' with sessions := e'.sessions.put p session' }
  /-- A conversation is over. -/
  drop {N : Names} {e e' : Engine} (h : R N e e') :
    R N { e with sessions := e.sessions.drop p } { e' with sessions := e'.sessions.drop p }
  tell {N : Names} {e e' : Engine} {number number' : Nat} (h : R N e e')
    (hnumber : N .session number number') (what : Moment) :
    R N (e.told p number what) (e'.told p number' what)

/-- Everything that is done for a player leads from engines that go together to such.  What
completes an objective may rely on it that events are fired in both engines. -/
structure MirroredByPlay (p : PlayerId) (A : Set Demand) (R : Names → Engine → Engine → Prop) :
    Prop extends MirroredAside p A R where
  talks : MirroredByTalk p A R
  start (id : ObjectId) : Act.Mirrored R (Objectives.start p id)
  cancel (id : ObjectId) : Act.Mirrored R (Objectives.cancel p id)
  complete {levels : Nat} (hfire : ∀ {events : List EventRef},
      Action.demandsOf true events ⊆ A → Act.Mirrored R ((nested levels).fire p events))
      (id : ObjectId) :
    Act.Mirrored R (Objectives.complete (nested levels) p id)

/-! ### Conversations -/

namespace Talks

variable {number number' : Nat} {talk : Conversation}

/-- The final events of a session are fired in both engines. -/
theorem mirrors_farewell (hP : MirroredByContent n p A R) (hT : MirroredByTalk p A R)
    {events : List EventRef} (hA : Action.demandsOf true events ⊆ A) (h : R N e e')
    (hnumber : N .session number number') :
    Act.Mirrors R N e e' Same (farewell n p number events) (farewell n p number' events) := by
  induction events generalizing N e e' with
  | nil => exact Act.mirrors_pure h rfl
  | cons event rest ih =>
    obtain ⟨id, conditions, content⟩ := event
    rw [Action.demandsOf, Set.union_subset_iff, Set.union_subset_iff] at hA
    refine Act.mirrors_bind (Act.mirrors_modify (hT.tell h hnumber _)) ?_
    intro N₁ _ _ e₁ e₁' hN₁ _ hrel _
    refine Act.mirrors_bind (Act.mirrored_discard (Action.fire_mirrored hP hA.1.1 hA.1.2)
      N₁ e₁ e₁' hrel) ?_
    intro N₂ _ _ e₂ e₂' hN₂ _ hrel₂ _
    exact ih hA.2 hrel₂ (hN₂ _ _ _ (hN₁ _ _ _ hnumber))

theorem mirrors_depart (hP : MirroredByContent n p A R) (hT : MirroredByTalk p A R)
    (h : R N e e') {session session' : Session} (hsession : session.Twin A N session')
    (how : Parting) :
    Act.Mirrors R N e e' Same (depart n p session how) (depart n p session' how) := by
  obtain ⟨m, rfl⟩ : ∃ m, session' = { session with number := m } := ⟨_, hsession.same⟩
  have hA := hsession.within
  simp only [Conversation.demands, Set.union_subset_iff] at hA
  have hparted : R N (e.parted p session how) (e'.parted p { session with number := m } how) :=
    hT.tell (hT.tell (hT.drop h) hsession.number _) hsession.number _
  refine Act.mirrors_bind (Act.mirrors_modify hparted) ?_
  intro N₁ _ _ e₁ e₁' hN₁ _ hrel _
  split
  · exact mirrors_farewell hP hT hA.1.1.2 hrel (hN₁ _ _ _ hsession.number)
  · exact Act.mirrors_pure hrel rfl

theorem mirrors_finish (hP : MirroredByContent n p A R) (hT : MirroredByTalk p A R) (h : R N e e')
    (hnumber : N .session number number') (how : Parting) :
    Act.Mirrors R N e e' Same (finish n p number how) (finish n p number' how) := by
  have hheld := (hT.sessions h).held? (hT.numbers h) hnumber
  refine Act.mirrors_get_bind ?_
  generalize e.sessions.held? p number = session at hheld ⊢
  generalize e'.sessions.held? p number' = session' at hheld ⊢
  cases hheld with
  | none => exact Act.mirrors_pure h rfl
  | some hsession =>
    refine Act.mirrors_bind (mirrors_depart hP hT h hsession how) ?_
    intro N₁ _ _ e₁ e₁' _ _ hrel _
    exact Act.mirrors_pure hrel rfl

theorem mirrors_conclude (hP : MirroredByContent n p A R) (hT : MirroredByTalk p A R) (h : R N e e')
    (hnumber : N .session number number') (how : Parting) :
    Act.Mirrors R N e e' Same (conclude n p number how) (conclude n p number' how) := by
  refine Act.mirrors_bind (Act.mirrors_discard (mirrors_finish hP hT h hnumber how)) ?_
  intro N' _ _ e₁ e₁' _ _ hrel _
  exact Act.mirrors_pure hrel rfl

theorem leave_mirrored (hP : MirroredByContent n p A R) (hT : MirroredByTalk p A R)
    (how : Parting) : Act.Mirrored R (leave n p how) := by
  refine Act.mirrored_get_bind fun N e e' h => ?_
  have hfind : Option.Rel (Session.Twin A N) (e.sessions.find? p) (e'.sessions.find? p) :=
    hT.sessions h
  generalize e.sessions.find? p = session at hfind ⊢
  generalize e'.sessions.find? p = session' at hfind ⊢
  cases hfind with
  | none => exact Act.mirrors_pure h rfl
  | some hsession => exact mirrors_finish hP hT h hsession.number how

/-- The option that is open is the same one, and is found among those there are. -/
theorem mirrors_firstOpen (hP : MirroredByContent n p A R) {options : Table String TalkOption}
    (hA : ∀ name o, options.find? name = some o → o.demands true ⊆ A)
    (names : List String) (h : R N e e') :
    Act.Mirrors R N e e'
      (fun _ r r' => r' = r ∧ ∀ name o, r = some (name, o) → options.find? name = some o)
      (firstOpen n p options names) (firstOpen n p options names) := by
  induction names generalizing N e e' with
  | nil => exact Act.mirrors_pure h ⟨rfl, nofun⟩
  | cons name rest ih =>
    simp only [firstOpen]
    split
    · exact ih h
    · rename_i option hoption
      have hconditions := hA name option hoption
      simp only [TalkOption.demands, Set.union_subset_iff] at hconditions
      refine Act.mirrors_bind (allHold_mirrored hP hconditions.1.2 N e e' h) ?_
      rintro N₁ met _ e₁ e₁' - - hrel rfl
      split
      · refine Act.mirrors_pure hrel ⟨rfl, fun name' o hfound => ?_⟩
        cases hfound
        exact hoption
      · exact ih hrel

theorem allOpen_mirrored (hP : MirroredByContent n p A R) {options : Table String TalkOption}
    (hA : ∀ name o, options.find? name = some o → o.demands true ⊆ A)
    (names : List String) : Act.Mirrored R (allOpen n p options names) := by
  induction names with
  | nil => exact Act.mirrored_pure _
  | cons name rest ih =>
    simp only [allOpen]
    split
    · exact ih
    · rename_i option hoption
      have hconditions := hA name option hoption
      simp only [TalkOption.demands, Set.union_subset_iff] at hconditions
      refine Act.mirrored_bind (allHold_mirrored hP hconditions.1.2) fun met => ?_
      split
      · exact Act.mirrored_bind (RichText.render_mirrored hP _) fun _ =>
          Act.mirrored_bind ih fun _ => Act.mirrored_pure _
      · exact ih

theorem mirrors_present (hP : MirroredByContent n p A R) (hT : MirroredByTalk p A R) (h : R N e e')
    (hnumber : N .session number number') (name speaker text : String)
    (offered : List (String × String)) :
    Act.Mirrors R N e e' Same (present n p number name speaker text offered)
      (present n p number' name speaker text offered) := by
  have hheld := (hT.sessions h).held? (hT.numbers h) hnumber
  refine Act.mirrors_get_bind ?_
  generalize e.sessions.held? p number = session at hheld ⊢
  generalize e'.sessions.held? p number' = session' at hheld ⊢
  cases hheld with
  | none => exact Act.mirrors_pure h rfl
  | @some session session' hsession =>
    obtain ⟨m, rfl⟩ : ∃ m, session' = { session with number := m } := ⟨_, hsession.same⟩
    have hshown : Session.Twin A N (shown session name speaker text offered)
        (shown { session with number := m } name speaker text offered) :=
      ⟨hsession.number, rfl, hsession.within⟩
    refine Act.mirrors_bind (Act.mirrors_modify
      (hT.tell (hT.put h hshown) hsession.number (.shown _))) ?_
    intro N₁ _ _ e₁ e₁' hN₁ _ hrel _
    split
    · exact mirrors_conclude hP hT hrel (hN₁ _ _ _ hnumber) _
    · exact Act.mirrors_pure hrel rfl

theorem mirrors_advance (hP : MirroredByContent n p A R) (hT : MirroredByTalk p A R) (h : R N e e')
    (hnumber : N .session number number') (hA : talk.demands true ⊆ A)
    (pointers : List String) :
    Act.Mirrors R N e e' Same (advance n p number talk pointers)
      (advance n p number' talk pointers) := by
  simp only [Conversation.demands, Set.union_subset_iff] at hA
  obtain ⟨⟨⟨-, -⟩, hnpc⟩, hplayer⟩ := hA
  have hlines : ∀ name o, talk.npcOptions.find? name = some o → o.demands true ⊆ A :=
    fun name o h d hd => hnpc ⟨name, o, h, hd⟩
  have hreplies : ∀ name o, talk.playerOptions.find? name = some o →
      o.demands true ⊆ A := fun name o h d hd => hplayer ⟨name, o, h, hd⟩
  refine Act.mirrors_bind (mirrors_firstOpen hP hlines pointers h) ?_
  rintro N₁ _ found e₁ e₁' hN₁ - hrel ⟨rfl, hopen⟩
  rcases found with _ | ⟨name, line⟩
  · exact mirrors_conclude hP hT hrel (hN₁ _ _ _ hnumber) _
  · have hline := hlines name line (hopen name line rfl)
    simp only [TalkOption.demands, Set.union_subset_iff] at hline
    refine Act.mirrors_bind (Action.fireEach_mirrored hP hline.2 N₁ e₁ e₁' hrel) ?_
    intro N₂ _ _ e₂ e₂' hN₂ _ hrel₂ _
    have hnumber₂ := hN₂ _ _ _ (hN₁ _ _ _ hnumber)
    refine Act.mirrors_get_bind ?_
    rw [(hT.sessions hrel₂).isCurrent (hT.numbers hrel₂) hnumber₂]
    split
    · refine Act.mirrors_bind (allOpen_mirrored hP hreplies _ N₂ e₂ e₂' hrel₂) ?_
      rintro N₃ offered _ e₃ e₃' hN₃ - hrel₃ rfl
      refine Act.mirrors_bind (RichText.render_mirrored hP _ N₃ e₃ e₃' hrel₃) ?_
      rintro N₄ speaker _ e₄ e₄' hN₄ - hrel₄ rfl
      refine Act.mirrors_bind (RichText.render_mirrored hP _ N₄ e₄ e₄' hrel₄) ?_
      rintro N₅ text _ e₅ e₅' hN₅ - hrel₅ rfl
      exact mirrors_present hP hT hrel₅ (hN₅ _ _ _ (hN₄ _ _ _ (hN₃ _ _ _ hnumber₂))) _ _ _ _
    · exact Act.mirrors_pure hrel₂ rfl

theorem start_mirrored (hP : MirroredByContent n p A R) (hT : MirroredByTalk p A R)
    (id : ObjectId) : Act.Mirrored R (start n p id) := by
  refine Act.mirrored_get_bind fun N e e' h => ?_
  have hfind : Option.Rel (Session.Twin A N) (e.sessions.find? p) (e'.sessions.find? p) :=
    hT.sessions h
  have hfree : (e'.sessions.find? p).isSome = (e.sessions.find? p).isSome := by
    generalize e.sessions.find? p = session at hfind ⊢
    generalize e'.sessions.find? p = session' at hfind ⊢
    cases hfind <;> rfl
  rw [hP.packages h]
  cases hdefined : e.packages.get .conversation id with
  | error err => exact Act.mirrors_pure h rfl
  | ok talk =>
    dsimp only
    rw [hT.defaultScreen h, hT.registry h, hfree]
    split
    · exact Act.mirrors_pure h rfl
    · split
      · exact Act.mirrors_pure h rfl
      · rename_i style _ _
        have hA := hT.within h .conversation id talk hdefined
        obtain ⟨N', hN', hseat, hrel⟩ := hT.seat h (Screen.ofStyle style) hA
        refine Act.mirrors_bind (V := fun N _ _ =>
          N .session e.sessions.nextNumber e'.sessions.nextNumber)
          (Act.mirrors_change hN' hrel hseat) ?_
        intro N₁ _ _ e₁ e₁' _ _ hrel hnumber
        exact Act.mirrors_map (mirrors_advance hP hT hrel hnumber hA _) fun _ _ _ => congrArg _

theorem mirrors_follow (hP : MirroredByContent n p A R) (hT : MirroredByTalk p A R) (h : R N e e')
    {session session' : Session}
    (hsession : session.Twin A N session') {reply : TalkOption}
    (hreply : reply.demands true ⊆ A) :
    Act.Mirrors R N e e' Same (follow n p session reply) (follow n p session' reply) := by
  simp only [TalkOption.demands, Set.union_subset_iff] at hreply
  obtain ⟨m, rfl⟩ : ∃ m, session' = { session with number := m } := ⟨_, hsession.same⟩
  refine Act.mirrors_bind (Action.fireEach_mirrored hP hreply.2 N e e' h) ?_
  intro N₁ _ _ e₁ e₁' hN₁ _ hrel _
  have hnumber := hN₁ _ _ _ hsession.number
  refine Act.mirrors_get_bind ?_
  rw [(hT.sessions hrel).isCurrent (hT.numbers hrel) hnumber]
  split
  · split
    · exact mirrors_conclude hP hT hrel hnumber _
    · exact mirrors_advance hP hT hrel hnumber hsession.within _
  · exact Act.mirrors_pure hrel rfl

theorem select_mirrored (hP : MirroredByContent n p A R) (hT : MirroredByTalk p A R) (index : Nat) :
    Act.Mirrored R (select n p index) := by
  refine Act.mirrored_get_bind fun N e e' h => ?_
  have hfind : Option.Rel (Session.Twin A N) (e.sessions.find? p) (e'.sessions.find? p) :=
    hT.sessions h
  generalize e.sessions.find? p = session at hfind ⊢
  generalize e'.sessions.find? p = session' at hfind ⊢
  cases hfind with
  | none => exact Act.mirrors_pure h rfl
  | @some session session' hsession =>
    obtain ⟨m, rfl⟩ : ∃ m, session' = { session with number := m } := ⟨_, hsession.same⟩
    have hA := hsession.within
    simp only [Conversation.demands, Set.union_subset_iff] at hA
    dsimp only
    split
    · exact Act.mirrors_pure h rfl
    · split
      · exact Act.mirrors_pure h rfl
      · rename_i name _ _
        have hresolving : Session.Twin A N { session with phase := .resolving }
            { session with number := m, phase := .resolving } :=
          ⟨hsession.number, rfl, hsession.within⟩
        refine Act.mirrors_bind (Act.mirrors_modify (hT.put h hresolving)) ?_
        intro N₁ _ _ e₁ e₁' hN₁ _ hrel _
        split
        · exact Act.mirrors_map (mirrors_conclude hP hT hrel (hN₁ _ _ _ hsession.number) _)
            fun _ _ _ => congrArg _
        · rename_i reply hreply
          exact Act.mirrors_map (mirrors_follow hP hT hrel (hsession.mono hN₁) fun d hd =>
            hA.2 ⟨name, reply, hreply, hd⟩) fun _ _ _ => congrArg _

theorem navigate_mirrored (hT : MirroredByTalk p A R) (command : String) :
    Act.Mirrored R (navigate p command) := by
  refine Act.mirrored_get_bind fun N e e' h => ?_
  have hfind : Option.Rel (Session.Twin A N) (e.sessions.find? p) (e'.sessions.find? p) :=
    hT.sessions h
  generalize e.sessions.find? p = session at hfind ⊢
  generalize e'.sessions.find? p = session' at hfind ⊢
  cases hfind with
  | none => exact Act.mirrors_pure h rfl
  | @some session session' hsession =>
    obtain ⟨m, rfl⟩ : ∃ m, session' = { session with number := m } := ⟨_, hsession.same⟩
    dsimp only
    split
    · exact Act.mirrors_pure h rfl
    · have hturned : Session.Twin A N
          { session with screen := (session.screen.navigate command).2.1 }
          { session with number := m, screen := (session.screen.navigate command).2.1 } :=
        ⟨hsession.number, rfl, hsession.within⟩
      refine Act.mirrors_bind (Act.mirrors_modify
        (hT.tell (hT.put h hturned) hsession.number (.shown _))) ?_
      intro N₁ _ _ e₁ e₁' _ _ hrel _
      exact Act.mirrors_pure hrel rfl

end Talks


/-! ### Requests and levels -/

theorem Request.answer_mirrored (hP : MirroredByContent n p A R) (hT : MirroredByTalk p A R)
    (r : Request) : Act.Mirrored R (r.answer n p) := by
  cases r with
  | startConversation id => exact Talks.start_mirrored hP hT id
  | selectOption index => exact Talks.select_mirrored hP hT index
  | navigate command => exact Talks.navigate_mirrored hT command
  | talkState =>
    refine Act.mirrored_get_bind fun N e e' h => ?_
    rw [(hT.sessions h).state?]
    exact Act.mirrors_pure h rfl
  | endConversation => exact Talks.leave_mirrored hP hT .dismissed
  | disconnect => exact Talks.leave_mirrored hP hT .disconnected
  | startObjective id => exact hP.start id
  | cancelObjective id => exact hP.cancel id
  | completeObjective id => exact hP.complete id
  | note entry => exact Act.mirrored_note hP.toMirroredAside entry

/-- Content runs in both engines, on every level. -/
theorem MirroredByPlay.content (hP : MirroredByPlay p A R) (levels : Nat) :
    MirroredByContent (nested levels) p A R := by
  have hcontent : ∀ {levels : Nat}, (∀ {events : List EventRef},
      Action.demandsOf true events ⊆ A → Act.Mirrored R ((nested levels).fire p events)) →
      (∀ r, Act.Mirrored R ((nested levels).ask p r)) →
      MirroredByContent (nested levels) p A R := fun hfire hask =>
    { hP.toMirroredAside with
      fire := hfire
      ask := hask
      start := hP.start
      cancel := hP.cancel
      complete := hP.complete hfire }
  -- What a level does rests on the one below; the lowest one halts at once.
  induction levels with
  | zero => exact hcontent (fun _ => Act.mirrored_halt _) fun _ => Act.mirrored_halt _
  | succ levels ih =>
    exact hcontent (fun hA => Action.fireEach_mirrored ih hA) fun r =>
      r.answer_mirrored ih hP.talks

/-! ### Commands -/

/-- A reminder rings in both engines, if reminders are put off in both. -/
theorem Reminder.ring_mirrored (hP : MirroredAside p A R)
    (hlater : ∀ {N : Names} {e e' : Engine} {tasks : List (Nat × Task)}, R N e e' →
      (∀ t ∈ tasks, ∃ r, t.2 = .remind r) →
      Act.Mirrors R N e e' Same (Act.later tasks) (Act.later tasks)) (r : Reminder) :
    Act.Mirrored R r.ring := by
  refine Act.mirrored_get_bind fun N e e' h => ?_
  rw [hP.tick h]
  refine Act.mirrors_bind (Act.mirrored_note hP _ N e e' h) ?_
  intro N₁ _ _ e₁ e₁' _ _ hrel _
  refine hlater hrel fun t ht => ?_
  obtain ⟨x, -, rfl⟩ := List.mem_map.1 ht
  exact ⟨x.2, rfl⟩

theorem Act.resolving_mirrored (hP : MirroredByPlay p A R) (raw : String) (k : Kind)
    (package : String) {f : Resolved k → Act α}
    (hf : ∀ d, k.demands true d.target ⊆ A → Act.Mirrored R (f d)) :
    Act.Mirrored R (Act.resolving raw k package f) := by
  refine Act.mirrored_get_bind fun N e e' h => ?_
  rw [hP.packages h]
  split
  · exact Act.mirrors_pure h rfl
  · rename_i d hresolve
    have hA := hP.talks.within h _ _ _ (Packages.get_of_resolve hresolve)
    exact Act.mirrored_map _ (hf d hA) N e e' h

/-- A command for a player, other than to dispatch an event, is carried out in both engines. -/
theorem Command.perform_mirrored (hP : MirroredByPlay p A R) {c : Command} (hc : c.player? = some p)
    (hdispatch : ∀ event, c ≠ .dispatch event) : Act.Mirrored R (c.perform (nested levels)) := by
  have hcontent := hP.content levels
  cases c with
  | request q r =>
    cases hc
    exact r.answer_mirrored hcontent hP.talks
  | check q raw package =>
    cases hc
    exact Act.resolving_mirrored hP raw _ package fun d hd => Check.holds_mirrored hcontent hd
  | evaluate q raw package =>
    cases hc
    exact Act.resolving_mirrored hP raw _ package fun d hd => Check.evaluate_mirrored hcontent hd
  | fire q raw package =>
    cases hc
    refine Act.resolving_mirrored hP raw _ package fun d hd => ?_
    rw [Kind.demands, Set.union_subset_iff] at hd
    exact Action.fire_mirrored hcontent hd.1 hd.2
  | display q raw package =>
    cases hc
    exact Act.resolving_mirrored hP raw _ package fun d _ =>
      Variable.shown_mirrored hcontent d.target
  | value q raw package =>
    cases hc
    exact Act.resolving_mirrored hP raw _ package fun d _ =>
      Variable.value_mirrored hcontent d.target
  | dispatch event => exact absurd rfl (hdispatch event)
  | tick | remind | restore | replacePackages | changeWorld | setClock => cases hc

end Questbook
