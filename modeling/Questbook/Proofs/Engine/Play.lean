/-
Questbook/Proofs/Engine/Play.lean

Objectives and conversations keep what their changes keep.

The packages in force bring their own content into play: a game event runs the goals and conditions
of objectives and the events of those it completes, and a conversation runs its lines.  A property
that is kept by content (`KeptByContent`), by progress that is stored, by completion with all that
follows from it, and by the changes of a session is kept by the engine's part of it as well; that is
`KeptByPlay`.

Main results: `Objectives.dispatch_keeps`, `Task.runEach_keeps` and the rules for conversations.
-/
import Questbook.Engine.Talks
import Questbook.Proofs.Engine.Content
import Questbook.Proofs.Engine.Goals

namespace Questbook

/-- An objective ends as completed, and its events are about to be fired. -/
def Engine.completed (e : Engine) (p : PlayerId) (held : Nat) (id : ObjectId) (active : Active) :
    Engine :=
  (e.removed p held id active .completed).mark p id active.epoch .rewarded

/-- The changes that are made for a player keep `P`: those of content, and those of his
objectives under the packages `K`. -/
structure KeptByChanges (p : PlayerId) (A : Set Demand) (deep : Bool) (K : Packages)
    (P : Engine → Prop) : Prop extends KeptAside p A deep P where
  packages {e : Engine} (he : P e) : e.packages = K
  start {e : Engine} {id : ObjectId} {definition : Objective} (he : P e)
    (hdefined : K.get .objective id = .ok definition) (hinactive : e.progress.find? p id = none) :
    P (e.begun p id definition.goal.initial)
  store {e : Engine} {held : Nat} {id : ObjectId} {active : Active} {definition : Objective}
    {data : Json} (he : P e) (hactive : e.progress.findIn? p held id = some active)
    (hdefined : K.get .objective id = .ok definition) (hmade : definition.goal.Made data) :
    P (e.stored p held id active active.epoch data)
  /-- An objective is cancelled, and its slot pruned. -/
  cancel {e : Engine} {held : Nat} {id : ObjectId} {active : Active} (he : P e)
    (hactive : e.progress.findIn? p held id = some active) :
    P ((e.removed p held id active .cancelled).pruned p held)
  prune {e : Engine} (held : Nat) (he : P e) : P (e.pruned p held)

/-- A player's session begins and goes on with `P`, and its content keeps within `A`. -/
structure KeptBySeat (p : PlayerId) (A : Set Demand) (deep : Bool) (K : Packages)
    (P : Engine → Prop) : Prop where
  talk {e : Engine} {session : Session} (he : P e)
    (hsession : e.sessions.find? p = some session) : session.talk.demands deep ⊆ A
  /-- A conversation is begun. -/
  seat {e : Engine} {id : ObjectId} {talk : Conversation} (screen : Screen) (he : P e)
    (hdefined : K.get .conversation id = .ok talk) (hfree : e.sessions.find? p = none) :
    P { e with sessions := (e.sessions.start p talk screen).2 }
  /-- A conversation goes on. -/
  put {e : Engine} {session : Session} (session' : Session) (he : P e)
    (hsession : e.sessions.find? p = some session) (htalk : session'.talk = session.talk)
    (hnumber : session'.number = session.number)
    (hstyle : session'.screen.style = session.screen.style) :
    P { e with sessions := e.sessions.put p session' }

/-- Each change of a player's session keeps `P`. -/
structure KeptByTalk (p : PlayerId) (A : Set Demand) (deep : Bool) (K : Packages)
    (P : Engine → Prop) : Prop extends KeptBySeat p A deep K P where
  /-- A conversation is over. -/
  drop {e : Engine} {session : Session} (he : P e)
    (hsession : e.sessions.find? p = some session) : P { e with sessions := e.sessions.drop p }
  tell {e : Engine} (number : Nat) (what : Moment) (he : P e) : P (e.told p number what)

/-- What a player's session shows keeps `P`, and so does its end with all that belongs to it. -/
structure KeptByScenes (n : Nested) (p : PlayerId) (A : Set Demand) (deep : Bool) (K : Packages)
    (P : Engine → Prop) (H : Halt → Prop) : Prop extends KeptBySeat p A deep K P where
  display {e : Engine} {session : Session} {frames : List Frame} (session' : Session) (he : P e)
    (hsession : e.sessions.find? p = some session) (htalk : session'.talk = session.talk)
    (hnumber : session'.number = session.number)
    (hstyle : session'.screen.style = session.screen.style) (hopen : Frame.close ∉ frames) :
    P (e.showing p session' frames)
  depart {e : Engine} {session : Session} (how : Parting) (he : P e)
    (hsession : e.sessions.find? p = some session) :
    (Talks.depart n p session how).Ensures e H fun _ => P

/-- Everything that is done on behalf of a player under the packages `K`, other than to talk, keeps
`P`, and halts as `H` allows. -/
structure KeptByGoals (n : Nested) (p : PlayerId) (A : Set Demand) (deep : Bool) (K : Packages)
    (P : Engine → Prop) (H : Halt → Prop) : Prop where
  within : K.Within A deep
  content : KeptByContent n p A deep P H
  changes : KeptByChanges p A deep K P
  /-- What follows a completion ends with `P` once the slot is pruned. -/
  follow {e : Engine} {held : Nat} {id x : ObjectId} {active : Active} {definition : Objective}
    (he : P e) (hdefined : K.get .objective id = .ok definition) (hx : x = id ∨ x = definition.id)
    (hactive : e.progress.findIn? p held x = some active) :
    (n.fire p definition.events).Ensures (e.completed p held x active) H
      fun _ e' => P (e'.pruned p held)

/-- Everything that is done on behalf of a player under the packages `K` keeps `P`, and halts as `H`
allows. -/
structure KeptByPlay (n : Nested) (p : PlayerId) (A : Set Demand) (deep : Bool) (K : Packages)
    (P : Engine → Prop) (H : Halt → Prop) : Prop extends KeptByGoals n p A deep K P H where
  talks : KeptByScenes n p A deep K P H

/-- What a player's conversations run under the packages `K` keeps `P`, and halts as `H` allows. -/
structure KeptByTalking (n : Nested) (p : PlayerId) (A : Set Demand) (deep : Bool) (K : Packages)
    (P : Engine → Prop) (H : Halt → Prop) : Prop where
  within : K.Within A deep
  packages {e : Engine} (he : P e) : e.packages = K
  content : KeptByContent n p A deep P H
  scenes : KeptByScenes n p A deep K P H

/-- Putting off a check for a player, one that keeps within `A`, keeps `P`. -/
structure KeptByDeferral (p : PlayerId) (A : Set Demand) (P : Engine → Prop) : Prop where
  defer {e : Engine} {id : ObjectId} {epoch : Nat} {check : Recheck} {agenda : Agenda Task}
    (he : P e) (hcheck : check.demands ⊆ A)
    (hagenda : e.agenda.afterAll? [(1, .recheck p id epoch check)] = some agenda) :
    P { e with agenda }

variable {n : Nested} {p : PlayerId} {A : Set Demand} {deep : Bool} {K : Packages}
  {P : Engine → Prop} {H : Halt → Prop}

theorem KeptByPlay.talking (hP : KeptByPlay n p A deep K P H) : KeptByTalking n p A deep K P H where
  within := hP.within
  packages := hP.changes.packages
  content := hP.content
  scenes := hP.talks

/-! ### Objectives -/

namespace Objectives

variable {e : Engine} {held : Nat} {id : ObjectId}

theorem remove_run (held : Nat) (id : ObjectId) (epoch : Option Nat) (how : Ending) (e : Engine) :
    (remove p held id epoch how).run e = .ok
      (match e.progress.findIn? p held id with
      | none => (none, e)
      | some active =>
        if epoch.all (· = active.epoch) then
          (some active.epoch, e.removed p held id active how)
        else (none, e)) := by
  unfold remove
  rw [StateT.run_bind]
  show StateT.run (match e.progress.findIn? p held id with
    | none => _
    | some active => _) e = _
  cases e.progress.findIn? p held id with
  | none => rfl
  | some active =>
    by_cases hepoch : epoch.all (· = active.epoch) = true
    · simp only [if_pos hepoch]
      rfl
    · simp only [if_neg hepoch]
      rfl

/-- Either an objective is removed, or nothing has changed. -/
theorem remove_cases {epoch removed : Option Nat} {how : Ending} {e e' : Engine}
    (h : (remove p held id epoch how).run e = .ok (removed, e')) :
    (removed = none ∧ e' = e) ∨ ∃ active, e.progress.findIn? p held id = some active ∧
      epoch.all (· = active.epoch) = true ∧ removed = some active.epoch ∧
      e' = e.removed p held id active how := by
  rw [remove_run] at h
  cases hfind : e.progress.findIn? p held id with
  | none =>
    rw [hfind] at h
    cases h
    exact .inl ⟨rfl, rfl⟩
  | some active =>
    simp only [hfind] at h
    split at h
    · rename_i hepoch
      cases h
      exact .inr ⟨active, rfl, hepoch, rfl, rfl⟩
    · cases h
      exact .inl ⟨rfl, rfl⟩

/-- Removing an objective, and going on from what was removed. -/
theorem ensures_remove_bind {β : Type} {epoch : Option Nat} {how : Ending}
    {k : Option Nat → Act β} {R : β → Engine → Prop} (hnone : (k none).Ensures e H R)
    (hsome : ∀ active, e.progress.findIn? p held id = some active →
      epoch.all (· = active.epoch) = true →
      (k (some active.epoch)).Ensures (e.removed p held id active how) H R) :
    (remove p held id epoch how >>= k).Ensures e H R := by
  refine Act.ensures_bind (R := fun removed e' => (remove p held id epoch how).run e =
    .ok (removed, e')) ?_ fun removed e' hrun _ => ?_
  · rw [Act.Ensures, remove_run]
  · rcases remove_cases hrun with ⟨rfl, rfl⟩ | ⟨active, hactive, hepoch, rfl, rfl⟩
    · exact hnone
    · exact hsome active hactive hepoch

/-- What follows a completion, down to the pruning of the slot. -/
theorem ensures_finish_bind {β : Type} {x : ObjectId} {active : Active} {events : List EventRef}
    {answer : β}
    (h : (n.fire p events).Ensures (e.completed p held x active) H
      fun _ e' => P (e'.pruned p held)) :
    (finish n p x active.epoch events >>= fun _ => prune p held >>= fun _ => pure answer).Ensures
      (e.removed p held x active .completed) H fun _ => P :=
  Act.ensures_bind (R := fun _ e' => P (e'.pruned p held)) h fun _ _ _ he => he

theorem settle_keeps (hP : KeptByGoals n p A deep K P H) {definition : Objective}
    (hdefined : K.get .objective id = .ok definition) (epoch : Nat) :
    (settle n p held definition epoch).Keeps P H := by
  have hA := hP.within .objective _ _ hdefined
  simp only [Kind.demands, Objective.demands, Set.union_subset_iff] at hA
  refine Act.keeps_bind (allHold_keeps hP.content hA.1.2) fun met => ?_
  split
  · refine fun e he => ensures_remove_bind he fun active hactive hepoch => ?_
    obtain rfl : epoch = active.epoch := by simpa using hepoch
    exact ensures_finish_bind (hP.follow he hdefined (.inr rfl) hactive)
  · exact Act.keeps_pure _

theorem store_keeps (hP : KeptByGoals n p A deep K P H) {definition : Objective}
    (hdefined : K.get .objective id = .ok definition) {data : Json}
    (hmade : definition.goal.Made data) (epoch : Nat) :
    (store p held id epoch data).Keeps P H := by
  refine Act.keeps_get_bind fun e he => ?_
  cases hactive : e.progress.findIn? p held id with
  | none => exact he
  | some active =>
    dsimp only
    split
    · rename_i hepoch
      subst hepoch
      exact hP.changes.store he hactive hdefined hmade
    · exact he

/-- What an objective makes of a game event keeps `P`, if it does so where the goal puts off a
check. -/
theorem offer_ensures (hP : KeptByGoals n p A deep K P H) (event : GameEvent) (he : P e)
    (hdefer : ∀ {definition : Objective} {active : Active} {data : Json} {check : Recheck}
      {e₁ : Engine} {agenda : Agenda Task}, K.get .objective id = .ok definition →
      e.progress.findIn? p held id = some active →
      StateT.run (ExceptT.run (definition.goal.handle n p active.data event)) e =
        .ok (.ok (data, .deferred check), e₁) → P e₁ →
      e₁.agenda.afterAll? [(1, .recheck p id active.epoch check)] = some agenda →
      P { e₁ with agenda }) :
    (offer n K event p held id).Ensures e H fun _ => P := by
  refine Act.ensures_get_bind ?_
  split
  · rename_i definition active hdefined hactive
    have hA := hP.within .objective _ _ hdefined
    simp only [Kind.demands, Objective.demands, Set.union_subset_iff] at hA
    have hhandle := Goal.handle_keeps hP.content hA.1.1 active.data event
    refine Act.ensures_bind (hhandle e he) fun r e' hrun he' => ?_
    have hmade : ∀ data outcome, r = .ok (data, outcome) → definition.goal.Made data := by
      rintro data outcome rfl
      exact ⟨n, p, active.data, event, e, outcome, e', hrun⟩
    split
    · exact he'
    · exact he'
    · exact Act.keeps_discard (store_keeps hP hdefined (hmade _ _ rfl) _) e' he'
    · refine Act.keeps_bind (store_keeps hP hdefined (hmade _ _ rfl) _) (fun stored => ?_) e' he'
      split
      · exact Act.keeps_discard (settle_keeps hP hdefined _)
      · exact Act.keeps_pure _
    · rename_i progress check
      refine Act.ensures_get_bind ?_
      split
      · rename_i agenda hagenda
        exact hdefer hdefined hactive hrun he' hagenda
      · exact hP.content.overflow
  · exact he

theorem offer_keeps (hP : KeptByGoals n p A deep K P H) (hdefer : KeptByDeferral p A P)
    (event : GameEvent) : (offer n K event p held id).Keeps P H := by
  refine fun e he => offer_ensures hP event he fun hdefined _ hrun he₁ hagenda => ?_
  have hA := hP.within .objective _ _ hdefined
  simp only [Kind.demands, Objective.demands, Set.union_subset_iff] at hA
  exact hdefer.defer he₁ ((Goal.demands_of_deferred hrun).trans hA.1.1) hagenda

theorem offerEach_keeps (hP : KeptByGoals n p A deep K P H) (hdefer : KeptByDeferral p A P)
    (event : GameEvent) (ids : List ObjectId) :
    (offerEach n K event p held ids).Keeps P H := by
  induction ids with
  | nil => exact Act.keeps_pure _
  | cons id rest ih => exact Act.keeps_bind (offer_keeps hP hdefer event) fun _ => ih

theorem dispatch_keeps {event : GameEvent} (hP : KeptByGoals n event.player A deep K P H)
    (hdefer : KeptByDeferral event.player A P) : (dispatch n event).Keeps P H := by
  refine Act.keeps_get_bind fun e he => ?_
  rw [hP.changes.packages he]
  split
  · exact he
  · exact offerEach_keeps hP hdefer event _ e he

theorem resume_keeps (hP : KeptByGoals n p A deep K P H) (epoch : Nat) {check : Recheck}
    (hA : check.demands ⊆ A) : (resume n p id epoch check).Keeps P H := by
  refine Act.keeps_get_bind fun e he => ?_
  split
  · exact he
  · refine Act.keeps_get_bind (fun e he => ?_) e he
    split
    · refine Act.keeps_bind (Recheck.passes_keeps hP.content hA) (fun r => ?_) e he
      split
      · exact Act.keeps_pure _
      · exact Act.keeps_pure _
      · refine fun e he => Act.ensures_objective_bind ?_
        rw [hP.changes.packages he]
        split
        · exact he
        · rename_i definition hdefined
          exact Act.keeps_discard (settle_keeps hP hdefined epoch) e he
    · exact he

end Objectives

/-! ### Conversations -/

namespace Screen

theorem style_foldl_offer (texts : List String) (screen : Screen) :
    (texts.foldl offer screen).style = screen.style := by
  induction texts generalizing screen with
  | nil => rfl
  | cons text rest ih => exact ih (screen.offer text)

/-- Turning the page does not change how a conversation is shown. -/
theorem style_navigate (screen : Screen) (command : String) :
    (screen.navigate command).2.1.style = screen.style := by
  unfold navigate
  split
  · dsimp only
    split
    · rfl
    · split <;> rfl
  · rfl

/-- A screen that shows its prompt is not closed. -/
theorem close_notMem_display (screen : Screen) : Frame.close ∉ screen.display := by
  unfold display
  split
  · simp
  · split <;> simp

theorem close_notMem_navigate (screen : Screen) (command : String) :
    Frame.close ∉ (screen.navigate command).2.2 := by
  unfold navigate
  split
  · dsimp only
    split
    · exact close_notMem_display _
    · split
      · exact close_notMem_display _
      · exact List.not_mem_nil
  · exact List.not_mem_nil

end Screen

namespace Talks

variable {number : Nat} {talk : Conversation}

theorem style_shown (session : Session) (name speaker text : String)
    (offered : List (String × String)) :
    (shown session name speaker text offered).screen.style = session.screen.style :=
  Screen.style_foldl_offer _ _

/-- Firing the final events of a session keeps what content and the chronicle keep. -/
theorem farewell_keeps (hcontent : KeptByContent n p A deep P H)
    (htell : ∀ {e} number what, P e → P (e.told p number what)) {events : List EventRef}
    (hA : Action.demandsOf deep events ⊆ A) : (farewell n p number events).Keeps P H := by
  induction events with
  | nil => exact Act.keeps_pure _
  | cons event rest ih =>
    obtain ⟨id, conditions, content⟩ := event
    rw [Action.demandsOf, Set.union_subset_iff, Set.union_subset_iff] at hA
    exact Act.keeps_bind (Act.keeps_modify fun _ he => htell _ _ he) fun _ =>
      Act.keeps_bind (Act.keeps_discard (Action.fire_keeps hcontent hA.1.1 hA.1.2)) fun _ => ih hA.2

end Talks

/-- Where each change of a session keeps `P`, so does its end. -/
theorem KeptByTalk.scenes (hT : KeptByTalk p A deep K P) (hcontent : KeptByContent n p A deep P H) :
    KeptByScenes n p A deep K P H where
  toKeptBySeat := hT.toKeptBySeat
  display session' he hsession htalk hnumber hstyle _ :=
    hT.tell _ _ (hT.put session' he hsession htalk hnumber hstyle)
  depart {e session} how he hsession := by
    have hA := hT.talk he hsession
    simp only [Conversation.demands, Set.union_subset_iff] at hA
    have hparted : P (e.parted p session how) := hT.tell _ _ (hT.tell _ _ (hT.drop he hsession))
    refine Act.ensures_bind (R := fun _ => P) hparted fun _ e' _ he' => ?_
    split
    · exact Talks.farewell_keeps hcontent hT.tell hA.1.1.2 e' he'
    · exact he'

namespace Talks

variable {number : Nat} {talk : Conversation}

theorem finish_keeps (hP : KeptByTalking n p A deep K P H) (how : Parting) :
    (finish n p number how).Keeps P H := by
  refine Act.keeps_get_bind fun e he => ?_
  split
  · exact he
  · rename_i session hheld
    have hsession : e.sessions.find? p = some session := (Sessions.held?_eq_some_iff.1 hheld).1
    exact Act.ensures_bind (hP.scenes.depart how he hsession) fun _ _ _ he' => he'

theorem conclude_keeps (hP : KeptByTalking n p A deep K P H) (how : Parting) :
    (conclude n p number how).Keeps P H :=
  Act.keeps_bind (Act.keeps_discard (finish_keeps hP how)) fun _ => Act.keeps_pure _

theorem leave_keeps (hP : KeptByTalking n p A deep K P H) (how : Parting) :
    (leave n p how).Keeps P H := by
  refine Act.keeps_get_bind fun e he => ?_
  split
  · exact he
  · exact finish_keeps hP how e he

/-- Which option is open is found among those there are. -/
theorem firstOpen_ensures (hP : KeptByTalking n p A deep K P H) {options : Table String TalkOption}
    (hA : ∀ name o, options.find? name = some o → o.demands deep ⊆ A) (names : List String)
    {e : Engine} (he : P e) : (firstOpen n p options names).Ensures e H fun found e' =>
      P e' ∧ ∀ name o, found = some (name, o) → options.find? name = some o := by
  induction names generalizing e with
  | nil => exact ⟨he, nofun⟩
  | cons name rest ih =>
    simp only [firstOpen]
    split
    · exact ih he
    · rename_i option hoption
      have hconditions := hA name option hoption
      simp only [TalkOption.demands, Set.union_subset_iff] at hconditions
      refine Act.ensures_bind (allHold_keeps hP.content hconditions.1.2 e he)
        fun met e' _ he' => ?_
      split
      · refine ⟨he', fun name' o h => ?_⟩
        cases h
        exact hoption
      · exact ih he'

theorem allOpen_keeps (hP : KeptByTalking n p A deep K P H) {options : Table String TalkOption}
    (hA : ∀ name o, options.find? name = some o → o.demands deep ⊆ A) (names : List String) :
    (allOpen n p options names).Keeps P H := by
  induction names with
  | nil => exact Act.keeps_pure _
  | cons name rest ih =>
    simp only [allOpen]
    split
    · exact ih
    · rename_i option hoption
      have hoption := hA name option hoption
      simp only [TalkOption.demands, Set.union_subset_iff] at hoption
      refine Act.keeps_bind (allHold_keeps hP.content hoption.1.2) fun met => ?_
      split
      · exact Act.keeps_bind (RichText.render_keeps hP.content hoption.1.1) fun _ =>
          Act.keeps_bind ih fun _ => Act.keeps_pure _
      · exact ih

theorem present_keeps (hP : KeptByTalking n p A deep K P H) (name speaker text : String)
    (offered : List (String × String)) :
    (present n p number name speaker text offered).Keeps P H := by
  refine Act.keeps_get_bind fun e he => ?_
  split
  · exact he
  · rename_i session hheld
    have hsession : e.sessions.find? p = some session := (Sessions.held?_eq_some_iff.1 hheld).1
    refine Act.ensures_bind (R := fun _ => P) (hP.scenes.display _ he hsession rfl rfl
      (style_shown ..) (Screen.close_notMem_display _)) fun _ e' _ he' => ?_
    split
    · exact conclude_keeps hP _ e' he'
    · exact he'

theorem advance_keeps (hP : KeptByTalking n p A deep K P H) (hA : talk.demands deep ⊆ A)
    (pointers : List String) : (advance n p number talk pointers).Keeps P H := by
  simp only [Conversation.demands, Set.union_subset_iff] at hA
  obtain ⟨⟨⟨hquester, -⟩, hnpc⟩, hplayer⟩ := hA
  have hlines : ∀ name o, talk.npcOptions.find? name = some o → o.demands deep ⊆ A :=
    fun name o h d hd => hnpc ⟨name, o, h, hd⟩
  have hreplies : ∀ name o, talk.playerOptions.find? name = some o → o.demands deep ⊆ A :=
    fun name o h d hd => hplayer ⟨name, o, h, hd⟩
  intro e he
  refine Act.ensures_bind (firstOpen_ensures hP hlines pointers he) fun found e' _ hfound => ?_
  obtain ⟨he', hopen⟩ := hfound
  rcases found with _ | ⟨name, line⟩
  · exact conclude_keeps hP _ e' he'
  · have hline := hlines name line (hopen name line rfl)
    simp only [TalkOption.demands, Set.union_subset_iff] at hline
    refine Act.keeps_bind (Action.fireEach_keeps hP.content hline.2) (fun _ => ?_) e' he'
    refine Act.keeps_bind Act.keeps_get fun e => ?_
    split
    · exact Act.keeps_bind (allOpen_keeps hP hreplies _) fun _ =>
        Act.keeps_bind (RichText.render_keeps hP.content hquester) fun _ =>
          Act.keeps_bind (RichText.render_keeps hP.content hline.1.1) fun _ =>
            present_keeps hP _ _ _ _
    · exact Act.keeps_pure _

theorem start_keeps (hP : KeptByTalking n p A deep K P H) (id : ObjectId) :
    (start n p id).Keeps P H := by
  refine Act.keeps_get_bind fun e he => ?_
  rw [hP.packages he]
  split
  · exact he
  · rename_i talk hdefined
    dsimp only
    split
    · exact he
    · split
      · exact he
      · rename_i hfree
        have hfree : e.sessions.find? p = none := by simpa using hfree
        refine Act.ensures_bind (R := fun _ => P) (hP.scenes.seat _ he hdefined hfree)
          fun _ e' _ he' => ?_
        exact Act.keeps_map _ (advance_keeps hP (hP.within .conversation _ _ hdefined) _) e' he'

theorem follow_keeps (hP : KeptByTalking n p A deep K P H) {session : Session}
    (hA : session.talk.demands deep ⊆ A) {reply : TalkOption} (hreply : reply.demands deep ⊆ A) :
    (follow n p session reply).Keeps P H := by
  simp only [TalkOption.demands, Set.union_subset_iff] at hreply
  refine Act.keeps_bind (Action.fireEach_keeps hP.content hreply.2) fun _ => ?_
  refine Act.keeps_bind Act.keeps_get fun e => ?_
  split
  · split
    · exact conclude_keeps hP _
    · exact advance_keeps hP hA _
  · exact Act.keeps_pure _

theorem select_keeps (hP : KeptByTalking n p A deep K P H) (index : Nat) :
    (select n p index).Keeps P H := by
  refine Act.keeps_get_bind fun e he => ?_
  split
  · exact he
  · rename_i session hsession
    have hA := hP.scenes.talk he hsession
    split
    · exact he
    · split
      · exact he
      · rename_i name text hoffered
        refine Act.ensures_bind (R := fun _ => P) (hP.scenes.put _ he hsession rfl rfl rfl)
          fun _ e' _ he' => ?_
        split
        · exact Act.keeps_map _ (conclude_keeps hP _) e' he'
        · rename_i reply hreply
          have hreply : reply.demands deep ⊆ A := by
            simp only [Conversation.demands, Set.union_subset_iff] at hA
            exact fun d hd => hA.2 ⟨name, reply, hreply, hd⟩
          exact Act.keeps_map _ (follow_keeps hP hA hreply) e' he'

theorem navigate_keeps (hP : KeptByTalking n p A deep K P H) (command : String) :
    (navigate p command).Keeps P H := by
  refine Act.keeps_get_bind fun e he => ?_
  split
  · exact he
  · rename_i session hsession
    split
    · exact he
    · exact Act.ensures_bind (R := fun _ => P) (hP.scenes.display _ he hsession rfl rfl
        (Screen.style_navigate ..) (Screen.close_notMem_navigate _ _)) fun _ _ _ he' => he'

end Talks

end Questbook
