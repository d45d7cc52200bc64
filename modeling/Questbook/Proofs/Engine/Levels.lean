/-
Questbook/Proofs/Engine/Levels.lean

Invariants of the whole engine.

Completion leads from one level of the engine to the next one down, and so does a script that asks
for something; induction on the levels closes the circle.  While a completion is under way an
invariant may take another form, and it has its first form again once the slot is pruned.  That is
why it is a family of properties that is kept: `complete` leads from one member to another.

Main results: `keptByContent`, for content that runs no conversations; `keptByPlay`, for all that is
done on behalf of a player; and `Command.perform_keeps`, for what a host may ask for while content
runs.
-/
import Questbook.Engine.Command
import Questbook.Proofs.Engine.Play

namespace Questbook

variable {ι : Type} {n : Nested} {p : PlayerId} {A : Set Demand} {deep : Bool} {K : Packages}
  {P : Engine → Prop} {H : Halt → Prop} {I : ι → Engine → Prop}

/-! ### What a player's objectives keep -/

namespace Objectives

theorem start_keeps {id : ObjectId} (hpackages : ∀ e, P e → e.packages = K)
    (hstart : ∀ {e definition}, P e → K.get .objective id = .ok definition →
      e.progress.find? p id = none → P (e.begun p id definition.goal.initial)) :
    (start p id).Keeps P H := by
  refine fun e he => Act.ensures_objective_bind ?_
  rw [hpackages e he]
  split
  · exact he
  · rename_i definition hdefined
    refine Act.ensures_get_bind ?_
    split
    · exact he
    · rename_i hinactive
      have hnone : e.progress.find? p id = none := by simpa [Slots.isActive] using hinactive
      exact hstart he hdefined hnone

theorem cancel_keeps {id : ObjectId} (hprune : ∀ {e} held, P e → P (e.pruned p held))
    (hcancel : ∀ {e held active}, P e → e.progress.findIn? p held id = some active →
      P ((e.removed p held id active .cancelled).pruned p held)) :
    (cancel p id).Keeps P H := by
  refine Act.keeps_get_bind fun e he => ?_
  split
  · exact he
  · exact ensures_remove_bind (hprune _ he) fun active hactive _ => hcancel he hactive

/-- Completing an objective keeps what is kept by what follows the completion. -/
theorem complete_keeps {id : ObjectId} (hpackages : ∀ e, P e → e.packages = K)
    (hfollow : ∀ {e held active definition}, P e → K.get .objective id = .ok definition →
      e.progress.findIn? p held id = some active →
      (n.fire p definition.events).Ensures (e.completed p held id active) H
        fun _ e' => P (e'.pruned p held)) :
    (complete n p id).Keeps P H := by
  refine fun e he => Act.ensures_objective_bind ?_
  rw [hpackages e he]
  split
  · exact he
  · rename_i definition hdefined
    refine Act.ensures_get_bind ?_
    split
    · exact he
    · exact ensures_remove_bind he fun active hactive _ =>
        ensures_finish_bind (hfollow he hdefined hactive)

end Objectives

/-! ### Requests -/

/-- Whether a request is one of a conversation, other than to look at it. -/
def Request.ofTalk : Request → Bool
  | startConversation _ | selectOption _ | navigate _ | endConversation | disconnect => true
  | talkState | startObjective _ | cancelObjective _ | completeObjective _ | note _ => false

/-- What is asked for other than to talk. -/
theorem Request.answer_keeps_of_quiet (hP : KeptByGoals n p A deep K P H) {r : Request}
    (hquiet : r.ofTalk = false) : (r.answer n p).Keeps P H := by
  cases r with
  | startConversation | selectOption | navigate | endConversation | disconnect => cases hquiet
  | talkState => exact Act.keeps_bind Act.keeps_get fun _ => Act.keeps_pure _
  | startObjective id =>
    exact Objectives.start_keeps (fun _ => hP.changes.packages) hP.changes.start
  | cancelObjective id => exact Objectives.cancel_keeps hP.changes.prune hP.changes.cancel
  | completeObjective id =>
    exact Objectives.complete_keeps (fun _ => hP.changes.packages) fun he hdefined =>
      hP.follow he hdefined (.inl rfl)
  | note entry => exact Act.keeps_modify fun _ he => hP.changes.note entry he

theorem Request.answer_keeps (hP : KeptByPlay n p A deep K P H) (r : Request) :
    (r.answer n p).Keeps P H := by
  by_cases hquiet : r.ofTalk = false
  · exact r.answer_keeps_of_quiet hP.toKeptByGoals hquiet
  · cases r with
    | startConversation id => exact Talks.start_keeps hP.talking id
    | selectOption index => exact Talks.select_keeps hP.talking index
    | navigate command => exact Talks.navigate_keeps hP.talking command
    | endConversation => exact Talks.leave_keeps hP.talking .dismissed
    | disconnect => exact Talks.leave_keeps hP.talking .disconnected
    | talkState | startObjective | cancelObjective | completeObjective | note =>
      exact absurd rfl hquiet

/-! ### The levels of the engine -/

/-- Every member of a family is kept by the changes made for a player, and a completion leads from
one member to another, from which pruning leads back. -/
structure KeptByAll (p : PlayerId) (A : Set Demand) (deep : Bool) (K : Packages)
    (I : ι → Engine → Prop) : Prop where
  within : K.Within A deep
  changes (i : ι) : KeptByChanges p A deep K (I i)
  complete {i : ι} {e : Engine} {held : Nat} {id : ObjectId} {active : Active} (he : I i e)
    (hactive : e.progress.findIn? p held id = some active) :
    ∃ j, I j (e.completed p held id active) ∧ ∀ e', I j e' → I i (e'.pruned p held)

namespace KeptByAll

/-- What follows a completion, as far as the events that it fires keep the whole family. -/
theorem follow (hI : KeptByAll p A deep K I)
    (hfire : ∀ i events, Action.demandsOf deep events ⊆ A → (n.fire p events).Keeps (I i) H) {i : ι}
    {e : Engine} {held : Nat} {id x : ObjectId} {active : Active} {definition : Objective}
    (he : I i e) (hdefined : K.get .objective id = .ok definition)
    (hactive : e.progress.findIn? p held x = some active) :
    (n.fire p definition.events).Ensures (e.completed p held x active) H
      fun _ e' => I i (e'.pruned p held) := by
  obtain ⟨j, hj, hback⟩ := hI.complete he hactive
  have hA := hI.within .objective _ _ hdefined
  simp only [Kind.demands, Objective.demands, Set.union_subset_iff] at hA
  exact (hfire j _ hA.2 _ hj).mono fun _ e' _ => hback e'

theorem content (hI : KeptByAll p A deep K I) (hoverflow : H .overflow)
    (hfire : ∀ i events, Action.demandsOf deep events ⊆ A → (n.fire p events).Keeps (I i) H)
    (hask : ∀ i r, .request r ∈ A → (n.ask p r).Keeps (I i) H) (i : ι) :
    KeptByContent n p A deep (I i) H where
  toKeptAside := (hI.changes i).toKeptAside
  ask := hask i
  start _ _ := Objectives.start_keeps (fun _ => (hI.changes i).packages) (hI.changes i).start
  cancel _ _ := Objectives.cancel_keeps (hI.changes i).prune (hI.changes i).cancel
  complete _ _ := Objectives.complete_keeps (fun _ => (hI.changes i).packages) fun he hdefined =>
    hI.follow hfire he hdefined
  overflow := hoverflow

theorem play (hI : KeptByAll p A deep K I)
    (hscenes : (∀ i, KeptByContent n p A deep (I i) H) → ∀ i, KeptByScenes n p A deep K (I i) H)
    (hoverflow : H .overflow)
    (hfire : ∀ i events, Action.demandsOf deep events ⊆ A → (n.fire p events).Keeps (I i) H)
    (hask : ∀ i r, .request r ∈ A → (n.ask p r).Keeps (I i) H) (i : ι) :
    KeptByPlay n p A deep K (I i) H where
  within := hI.within
  content := hI.content hoverflow hfire hask i
  changes := hI.changes i
  talks := hscenes (hI.content hoverflow hfire hask) i
  follow he hdefined _ := hI.follow hfire he hdefined

/-- Content that runs no conversations keeps the family, on every level of the engine. -/
theorem keptByContent (hI : KeptByAll p A deep K I)
    (htalk : ∀ r, .request r ∈ A → r.ofTalk = false) (hoverflow : H .overflow)
    (hdeep : H .tooDeep) (levels : Nat) (i : ι) :
    KeptByContent (nested levels) p A deep (I i) H := by
  -- What a level does rests on the one below; the lowest one halts at once.
  induction levels generalizing i with
  | zero =>
    exact hI.content hoverflow (fun _ _ _ => Act.keeps_halt hdeep)
      (fun _ _ _ => Act.keeps_halt hdeep) i
  | succ levels ih =>
    refine hI.content hoverflow (fun i events hA => Action.fireEach_keeps (ih i) hA)
      (fun i r hr => ?_) i
    have hquiet := htalk r hr
    cases r with
    | startConversation | selectOption | navigate | endConversation | disconnect => cases hquiet
    | talkState => exact Act.keeps_bind Act.keeps_get fun _ => Act.keeps_pure _
    | startObjective id => exact (ih i).start id hr
    | cancelObjective id => exact (ih i).cancel id hr
    | completeObjective id => exact (ih i).complete id hr
    | note entry => exact Act.keeps_modify fun _ he => (hI.changes i).note entry he

/-- Objectives whose content runs no conversations keep the family, on every level of the engine. -/
theorem keptByGoals (hI : KeptByAll p A deep K I)
    (htalk : ∀ r, .request r ∈ A → r.ofTalk = false) (hoverflow : H .overflow)
    (hdeep : H .tooDeep) (levels : Nat) (i : ι) :
    KeptByGoals (nested levels) p A deep K (I i) H where
  within := hI.within
  content := hI.keptByContent htalk hoverflow hdeep levels i
  changes := hI.changes i
  follow he hdefined _ := by
    refine hI.follow (fun i events hA => ?_) he hdefined
    cases levels with
    | zero => exact Act.keeps_halt hdeep
    | succ levels =>
      exact Action.fireEach_keeps (hI.keptByContent htalk hoverflow hdeep levels i) hA

/-- All that is done on behalf of a player keeps the family on every level of the engine, if what
his sessions go through does, wherever content does. -/
theorem keptByPlay_of_scenes (hI : KeptByAll p A deep K I)
    (hscenes : ∀ n, (∀ i, KeptByContent n p A deep (I i) H) →
      ∀ i, KeptByScenes n p A deep K (I i) H)
    (hoverflow : H .overflow) (hdeep : H .tooDeep) (levels : Nat) (i : ι) :
    KeptByPlay (nested levels) p A deep K (I i) H := by
  induction levels generalizing i with
  | zero =>
    exact hI.play (hscenes _) hoverflow (fun _ _ _ => Act.keeps_halt hdeep)
      (fun _ _ _ => Act.keeps_halt hdeep) i
  | succ levels ih =>
    exact hI.play (hscenes _) hoverflow
      (fun i events hA => Action.fireEach_keeps (ih i).content hA)
      (fun i r _ => r.answer_keeps (ih i)) i

/-- All that is done on behalf of a player keeps the family, on every level of the engine. -/
theorem keptByPlay (hI : KeptByAll p A deep K I) (htalks : ∀ i, KeptByTalk p A deep K (I i))
    (hoverflow : H .overflow) (hdeep : H .tooDeep) (levels : Nat) (i : ι) :
    KeptByPlay (nested levels) p A deep K (I i) H :=
  hI.keptByPlay_of_scenes (fun _ hcontent i => (htalks i).scenes (hcontent i)) hoverflow hdeep
    levels i

end KeptByAll

/-! ### Tasks and ticks -/

/-- What goes on besides the players keeps `P`, as long as the host leaves the world as it is; and
the tasks that wait keep within `A`. -/
structure KeptByTime (A : Set Demand) (deep : Bool) (K : Packages) (P : Engine → Prop)
    (H : Halt → Prop) : Prop where
  within : K.Within A deep
  packages {e : Engine} (he : P e) : e.packages = K
  note {e : Engine} (entry : Json) (he : P e) : P { e with notes := entry :: e.notes }
  remind {e : Engine} {tasks : List (Nat × Task)} {agenda : Agenda Task} (he : P e)
    (hreminders : ∀ t ∈ tasks, ∃ r, t.2 = .remind r)
    (hagenda : e.agenda.afterAll? tasks = some agenda) : P { e with agenda }
  tick {e : Engine} (he : P e) : P { e with agenda := e.agenda.advance.2 }
  tasks {e : Engine} {s : Appointment Task} (he : P e) (hs : s ∈ e.agenda.waiting) :
    s.task.demands deep ⊆ A
  clock {e : Engine} (clock : Calendar.Timestamp) (he : P e) : P { e with clock }
  overflow : H .overflow

/-- What the host and the clock do besides the players keeps `P`, whatever the host makes of the
world. -/
structure KeptByHost (A : Set Demand) (deep : Bool) (K : Packages) (P : Engine → Prop)
    (H : Halt → Prop) : Prop extends KeptByTime A deep K P H where
  world {e : Engine} (world : World) (he : P e) : P { e with world }

section Tasks

variable (htime : KeptByTime A deep K P H) (hP : ∀ p, KeptByGoals n p A deep K P H)

include htime

theorem KeptByTime.keeps_later {tasks : List (Nat × Task)}
    (hreminders : ∀ t ∈ tasks, ∃ r, t.2 = .remind r) : (Act.later tasks).Keeps P H := by
  refine Act.keeps_get_bind fun e he => ?_
  split
  · rename_i agenda hagenda
    exact htime.remind he hreminders hagenda
  · exact htime.overflow

include hP in
theorem Task.run_keeps {t : Task} (hA : t.demands deep ⊆ A) : (t.run n).Keeps P H := by
  cases t with
  | fire p events => exact Action.fireEach_keeps (hP p).content hA
  | recheck p id epoch check => exact Objectives.resume_keeps (hP p) epoch hA
  | remind r =>
    refine Act.keeps_bind Act.keeps_get fun e =>
      Act.keeps_bind (Act.keeps_modify fun _ he => htime.note _ he) fun _ =>
        htime.keeps_later fun t ht => ?_
    obtain ⟨x, -, rfl⟩ := List.mem_map.1 ht
    exact ⟨x.2, rfl⟩

include hP in
theorem Task.runEach_keeps {due : List (Appointment Task)}
    (hA : ∀ s ∈ due, s.task.demands deep ⊆ A) : (Task.runEach n due).Keeps P H := by
  induction due with
  | nil => exact Act.keeps_pure _
  | cons s rest ih =>
    rw [List.forall_mem_cons] at hA
    exact Act.keeps_bind (Task.run_keeps htime hP hA.1) fun _ => ih hA.2

include hP in
theorem Act.tick_keeps : (Act.tick n).Keeps P H := by
  refine Act.keeps_get_bind fun e he => ?_
  refine Act.ensures_bind (R := fun _ => P) (htime.tick he) fun _ e' _ he' => ?_
  refine Act.keeps_bind (Task.runEach_keeps htime hP fun s hs => ?_) (fun _ => Act.keeps_pure _)
    e' he'
  exact htime.tasks he (Agenda.mem_of_mem_advance hs)

end Tasks

/-! ### Commands -/

/-- What a name leads to is defined under the name. -/
theorem Packages.get_of_resolve {packages : Packages} {raw current : String} {k : Kind}
    {d : Resolved k} (h : packages.resolve raw k current = .ok d) :
    packages.get k d.id = .ok d.target := by
  unfold resolve at h
  split at h
  rename_i negated name _
  cases hget : packages.get k (ObjectId.qualify name current) with
  | error err => simp [hget, Except.map] at h
  | ok target =>
    simp only [hget, Except.map, Except.ok.injEq] at h
    rw [← h]
    exact hget

theorem Act.resolving_keeps {α : Type} (hwithin : K.Within A deep)
    (hpackages : ∀ e, P e → e.packages = K) (raw : String) (k : Kind) (package : String)
    {f : Resolved k → Act α} (hf : ∀ d, k.demands deep d.target ⊆ A → (f d).Keeps P H) :
    (Act.resolving raw k package f).Keeps P H := by
  refine Act.keeps_get_bind fun e he => ?_
  split
  · exact he
  · rename_i d hresolve
    rw [hpackages e he] at hresolve
    exact Act.keeps_map _ (hf d (hwithin _ _ _ (Packages.get_of_resolve hresolve))) e he

/-- The player whom a command is carried out for; none if it is for no player in particular. -/
def Command.player? : Command → Option PlayerId
  | request p _ => some p
  | check p _ _ => some p
  | evaluate p _ _ => some p
  | fire p _ _ => some p
  | display p _ _ => some p
  | value p _ _ => some p
  | dispatch event => some event.player
  | tick | remind _ _ | restore _ | replacePackages _ | changeWorld _ | setClock _ => none

/-- A command for a player keeps what his content keeps, if it does so where it is a request and
where it is an event. -/
theorem Command.perform_keeps_of_content (hwithin : K.Within A deep)
    (hpackages : ∀ e, P e → e.packages = K) (hcontent : KeptByContent n p A deep P H) {c : Command}
    (hc : c.player? = some p)
    (hdispatch : ∀ event, c = .dispatch event → (Objectives.dispatch n event).Keeps P H)
    (hrequest : ∀ r, c = .request p r → (r.answer n p).Keeps P H) :
    (c.perform n).Keeps P H := by
  cases c with
  | request q r =>
    cases hc
    exact hrequest r rfl
  | check q raw package =>
    cases hc
    exact Act.resolving_keeps hwithin hpackages raw _ package fun d hd =>
      Check.holds_keeps hcontent hd
  | evaluate q raw package =>
    cases hc
    exact Act.resolving_keeps hwithin hpackages raw _ package fun d hd =>
      Check.evaluate_keeps hcontent hd
  | fire q raw package =>
    cases hc
    refine Act.resolving_keeps hwithin hpackages raw _ package fun d hd => ?_
    rw [Kind.demands, Set.union_subset_iff] at hd
    exact Action.fire_keeps hcontent hd.1 hd.2
  | display q raw package =>
    cases hc
    exact Act.resolving_keeps hwithin hpackages raw _ package fun d hd =>
      Variable.shown_keeps hcontent hd
  | value q raw package =>
    cases hc
    exact Act.resolving_keeps hwithin hpackages raw _ package fun d hd =>
      Variable.value_keeps hcontent hd
  | dispatch event => exact hdispatch event rfl
  | tick | remind | restore | replacePackages | changeWorld | setClock => cases hc

/-- A command for a player keeps what his objectives keep, if it does so where it is a request and
where it puts off checks. -/
theorem Command.perform_keeps_of_player (hP : KeptByGoals n p A deep K P H) {c : Command}
    (hc : c.player? = some p)
    (hdefer : ∀ event, c = .dispatch event → KeptByDeferral event.player A P)
    (hrequest : ∀ r, c = .request p r → (r.answer n p).Keeps P H) :
    (c.perform n).Keeps P H := by
  refine Command.perform_keeps_of_content hP.within (fun _ => hP.changes.packages) hP.content hc
    (fun event hevent => ?_) hrequest
  subst hevent
  cases hc
  exact Objectives.dispatch_keeps hP (hdefer event rfl)

/-- While content runs, a command keeps what the objectives of all players keep, and what goes on
besides, if it does so where it is a request, where it puts off checks and where it changes the
world. -/
theorem Command.perform_keeps_of_request (htime : KeptByTime A deep K P H)
    (hP : ∀ p, KeptByGoals n p A deep K P H) (c : Command)
    (hdefer : ∀ event, c = .dispatch event → KeptByDeferral event.player A P)
    (hrequest : ∀ p r, c = .request p r → (r.answer n p).Keeps P H)
    (hworld : ∀ f, c = .changeWorld f → (Act.changeWorld f).Keeps P H)
    (hrestore : ∀ records, c ≠ .restore records)
    (hreload : ∀ packages, c ≠ .replacePackages packages) : (c.perform n).Keeps P H := by
  cases c with
  | tick => exact Act.tick_keeps htime hP
  | remind ticks r =>
    refine htime.keeps_later fun t ht => ?_
    obtain rfl := List.mem_singleton.1 ht
    exact ⟨r, rfl⟩
  | restore records => exact absurd rfl (hrestore records)
  | replacePackages packages => exact absurd rfl (hreload packages)
  | changeWorld f => exact hworld f rfl
  | setClock clock => exact Act.keeps_modify fun _ he => htime.clock clock he
  | request p _ | check p | evaluate p | fire p | display p | value p =>
    exact Command.perform_keeps_of_player (hP p) rfl hdefer fun r => hrequest p r
  | dispatch event =>
    exact Command.perform_keeps_of_player (hP event.player) rfl hdefer
      fun r => hrequest event.player r

/-- Whatever the host makes of the world keeps what he keeps. -/
theorem KeptByHost.keeps_changeWorld (hhost : KeptByHost A deep K P H) (f : World → World) :
    (Act.changeWorld f).Keeps P H :=
  Act.keeps_modify fun _ he => hhost.world _ he

/-- While content runs, every command keeps what play and the host keep, if it does so where it puts
off checks. -/
theorem Command.perform_keeps (hhost : KeptByHost A deep K P H)
    (hP : ∀ p, KeptByPlay n p A deep K P H) (c : Command)
    (hdefer : ∀ event, c = .dispatch event → KeptByDeferral event.player A P)
    (hrestore : ∀ records, c ≠ .restore records)
    (hreload : ∀ packages, c ≠ .replacePackages packages) : (c.perform n).Keeps P H :=
  c.perform_keeps_of_request hhost.toKeptByTime (fun p => (hP p).toKeptByGoals) hdefer
    (fun p r _ => r.answer_keeps (hP p)) (fun f _ => hhost.keeps_changeWorld f) hrestore hreload

/-! ### Storage and reload -/

namespace Objectives

/-- What a record is read back as can be read, or the objective begins from the start. -/
theorem readable_or_initial (goal : Goal) (data : Json) :
    goal.accepts (if goal.accepts data then data else goal.initial) = true ∨
      (if goal.accepts data then data else goal.initial) = goal.initial := by
  by_cases hreadable : goal.accepts data = true
  · rw [if_pos hreadable]
    exact .inl hreadable
  · exact .inr (if_neg hreadable)

/-- Reading records back keeps what is kept by entering what can be read. -/
theorem restore_keeps (henter : ∀ {e definition id data} (p : PlayerId)
    (startedAt : Calendar.Timestamp), P e → e.packages.get .objective id = .ok definition →
      (definition.goal.accepts data = true ∨ data = definition.goal.initial) →
        P (e.enter p id data startedAt).2) (records : List ProgressRecord) :
    (restore records).Keeps P H := by
  induction records with
  | nil => exact Act.keeps_pure _
  | cons r rest ih =>
    refine fun e he => Act.ensures_objective_bind ?_
    split
    · exact ih e he
    · rename_i definition hdefined
      refine Act.ensures_bind (R := fun _ => P)
        (henter _ _ he hdefined (readable_or_initial definition.goal r.data)) fun _ e' _ he' => ?_
      exact Act.keeps_bind ih (fun _ => Act.keeps_pure _) e' he'

end Objectives

/-- The changes that fit the progress of a player to the packages `K` keep `P`. -/
structure KeptByReload (p : PlayerId) (K : Packages) (P : Engine → Prop) : Prop where
  drop {e : Engine} {held : Nat} {id : ObjectId} {active : Active} {err : NotFound}
    (he : P e) (hactive : e.progress.findIn? p held id = some active)
    (hundefined : K.get .objective id = .error err) : P (e.ended p held id active .dropped)
  renew {e : Engine} {held : Nat} {id : ObjectId} {active : Active}
    {definition : Objective} (he : P e) (hactive : e.progress.findIn? p held id = some active)
    (hdefined : K.get .objective id = .ok definition)
    (hunreadable : definition.goal.accepts active.data = false) :
    P (e.renewed p held id active definition.goal.initial)
  prune {e : Engine} (held : Nat) (he : P e) : P (e.pruned p held)

namespace Objectives

theorem refit_keeps (hP : KeptByReload p K P) (held : Nat) (id : ObjectId) :
    (refit K p held id).Keeps P H := by
  refine Act.keeps_get_bind fun e he => ?_
  split
  · exact he
  · rename_i active hactive
    split
    · rename_i err hundefined
      exact hP.drop he hactive hundefined
    · rename_i definition hdefined
      split
      · exact he
      · rename_i hunreadable
        exact hP.renew he hactive hdefined (Bool.eq_false_iff.2 hunreadable)

theorem refitEach_keeps (hP : KeptByReload p K P) (held : Nat) (ids : List ObjectId) :
    (refitEach K p held ids).Keeps P H := by
  induction ids with
  | nil => exact Act.keeps_pure _
  | cons id rest ih => exact Act.keeps_bind (refit_keeps hP held id) fun _ => ih

theorem refitSlots_keeps {slots : List (PlayerId × Nat)} (hP : ∀ s ∈ slots, KeptByReload s.1 K P) :
    (refitSlots K slots).Keeps P H := by
  induction slots with
  | nil => exact Act.keeps_pure _
  | cons slot rest ih =>
    rw [List.forall_mem_cons] at hP
    exact Act.keeps_bind Act.keeps_get fun _ => Act.keeps_bind (refitEach_keeps hP.1 _ _) fun _ =>
      Act.keeps_bind (Act.keeps_modify fun _ he => hP.1.prune _ he) fun _ => ih hP.2

theorem reconcile_keeps (hP : ∀ p, KeptByReload p K P) : (reconcile K).Keeps P H :=
  Act.keeps_bind Act.keeps_get fun _ => refitSlots_keeps fun s _ => hP s.1

end Objectives

/-! ### Invariants of progress -/

/-- A change that touches neither progress nor what is told of it. -/
structure Engine.Aside (e e' : Engine) : Prop where
  progress : e'.progress = e.progress
  outbox : e'.outbox = e.outbox
  journal : e'.journal = e.journal
  packages : e'.packages = e.packages

/-- Every member of a family is kept by the changes of progress, and by whatever leaves progress
aside. -/
structure KeptByProgress (K : Packages) (I : ι → Engine → Prop) : Prop where
  aside {i : ι} {e e' : Engine} (he : I i e) (h : e.Aside e') : I i e'
  packages {i : ι} {e : Engine} (he : I i e) : e.packages = K
  start {i : ι} {e : Engine} {p : PlayerId} {id : ObjectId} {definition : Objective} (he : I i e)
    (hdefined : K.get .objective id = .ok definition) (hinactive : e.progress.find? p id = none) :
    I i (e.begun p id definition.goal.initial)
  store {i : ι} {e : Engine} {p : PlayerId} {held : Nat} {id : ObjectId} {active : Active}
    {definition : Objective} {data : Json} (he : I i e)
    (hactive : e.progress.findIn? p held id = some active)
    (hdefined : K.get .objective id = .ok definition) (hmade : definition.goal.Made data) :
    I i (e.stored p held id active active.epoch data)
  cancel {i : ι} {e : Engine} {p : PlayerId} {held : Nat} {id : ObjectId} {active : Active}
    (he : I i e) (hactive : e.progress.findIn? p held id = some active) :
    I i ((e.removed p held id active .cancelled).pruned p held)
  complete {i : ι} {e : Engine} {p : PlayerId} {held : Nat} {id : ObjectId} {active : Active}
    (he : I i e) (hactive : e.progress.findIn? p held id = some active) :
    ∃ j, I j (e.completed p held id active) ∧ ∀ e', I j e' → I i (e'.pruned p held)
  prune {i : ι} {e : Engine} (p : PlayerId) (held : Nat) (he : I i e) : I i (e.pruned p held)

namespace KeptByProgress

variable (hI : KeptByProgress K I)

include hI

theorem play (levels : Nat) (p : PlayerId) (i : ι) :
    KeptByPlay (nested levels) p Set.univ true K (I i) fun _ => True := by
  refine KeptByAll.keptByPlay ⟨fun _ _ _ _ => Set.subset_univ _, fun i => ?_, hI.complete⟩
    (fun i => ?_) trivial trivial levels i
  · exact
      { dice := fun he => hI.aside he ⟨rfl, rfl, rfl, rfl⟩
        place := fun _ _ he => hI.aside he ⟨rfl, rfl, rfl, rfl⟩
        join := fun _ he => hI.aside he ⟨rfl, rfl, rfl, rfl⟩
        render := fun _ he => hI.aside he ⟨rfl, rfl, rfl, rfl⟩
        note := fun _ he => hI.aside he ⟨rfl, rfl, rfl, rfl⟩
        later := fun he _ _ => hI.aside he ⟨rfl, rfl, rfl, rfl⟩
        packages := hI.packages
        start := hI.start
        store := hI.store
        cancel := hI.cancel
        prune := hI.prune p }
  · exact
      { talk := fun _ _ => Set.subset_univ _
        seat := fun _ he _ _ => hI.aside he ⟨rfl, rfl, rfl, rfl⟩
        put := fun _ he _ _ _ _ => hI.aside he ⟨rfl, rfl, rfl, rfl⟩
        drop := fun he _ => hI.aside he ⟨rfl, rfl, rfl, rfl⟩
        tell := fun _ _ he => hI.aside he ⟨rfl, rfl, rfl, rfl⟩ }

theorem fire_keeps (levels : Nat) (p : PlayerId) (events : List EventRef) (i : ι) :
    ((nested levels).fire p events).Keeps (I i) fun _ => True := by
  cases levels with
  | zero => exact Act.keeps_halt trivial
  | succ levels => exact Action.fireEach_keeps (hI.play levels p i).content (Set.subset_univ _)

theorem deferral (p : PlayerId) (i : ι) : KeptByDeferral p Set.univ (I i) :=
  ⟨fun he _ _ => hI.aside he ⟨rfl, rfl, rfl, rfl⟩⟩

theorem host (i : ι) : KeptByHost Set.univ true K (I i) fun _ => True where
  within _ _ _ _ := Set.subset_univ _
  packages := hI.packages
  note _ he := hI.aside he ⟨rfl, rfl, rfl, rfl⟩
  remind he _ _ := hI.aside he ⟨rfl, rfl, rfl, rfl⟩
  tick he := hI.aside he ⟨rfl, rfl, rfl, rfl⟩
  tasks _ _ := Set.subset_univ _
  clock _ he := hI.aside he ⟨rfl, rfl, rfl, rfl⟩
  world _ he := hI.aside he ⟨rfl, rfl, rfl, rfl⟩
  overflow := trivial

/-- While content runs, every command keeps an invariant of progress. -/
theorem perform_keeps (levels : Nat) (i : ι) (c : Command)
    (hrestore : ∀ records, c ≠ .restore records)
    (hreload : ∀ packages, c ≠ .replacePackages packages) :
    (c.perform (nested levels)).Keeps (I i) fun _ => True :=
  Command.perform_keeps (hI.host i) (fun p => hI.play levels p i) c
    (fun event _ => hI.deferral event.player i) hrestore hreload

end KeptByProgress

end Questbook
