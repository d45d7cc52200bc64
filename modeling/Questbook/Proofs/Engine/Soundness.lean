/-
Questbook/Proofs/Engine/Soundness.lean

What is completed was earned.

Apart from requests to complete an objective, which content may make, there are two occasions on
which objectives are completed: at its turn in a dispatch an objective may be satisfied by the
event, and on a tick a check that it has put off may be passed.  Then the conditions of the
objective are checked, and it is completed in the state that the last of them has left, if all of
them are met.

A failure never completes anything.  Where goal, check or a condition fails, the objective is left
as their own evaluation has left it; and if they leave progress alone, as those of the built-in
keywords do, it goes on under the same epoch, with the progress that it has reached.

Main result: `completions_earned`.
-/
import Questbook.Proofs.Engine.Authored
import Questbook.Proofs.Engine.Rechecks
import Questbook.Proofs.Engine.Settling

namespace Questbook

open Engine

variable {n : Nested} {p : PlayerId} {A : Set Demand} {K : Packages} {P : Engine → Prop}
  {levels : Nat}

theorem Packages.Within.authored (hK : K.Within A true) : K.Authored A fun _ => True :=
  ⟨hK, fun _ _ _ => trivial⟩

/-! ### What content completes on request -/

/-- The changes that content makes for a player keep `P`, and completions do as far as content which
keeps within `A` may ask for them.  It stores no progress. -/
structure KeptOnRequest (p : PlayerId) (A : Set Demand) (K : Packages) (P : Engine → Prop) : Prop
    extends KeptAside p A true P, KeptByTalk p A true K P where
  within : K.Within A true
  packages {e : Engine} (he : P e) : e.packages = K
  start {e : Engine} {id : ObjectId} {definition : Objective} (he : P e)
    (hdefined : K.get .objective id = .ok definition) (hinactive : e.progress.find? p id = none) :
    P (e.begun p id definition.goal.initial)
  cancel {e : Engine} {held : Nat} {id : ObjectId} {active : Active} (he : P e)
    (hactive : e.progress.findIn? p held id = some active) :
    P ((e.removed p held id active .cancelled).pruned p held)
  prune {e : Engine} (held : Nat) (he : P e) : P (e.pruned p held)
  complete {e : Engine} {held : Nat} {id : ObjectId} {active : Active} (he : P e)
    (hr : .request (.completeObjective id) ∈ A)
    (hactive : e.progress.findIn? p held id = some active) : P (e.completed p held id active)

namespace KeptOnRequest

variable (hP : KeptOnRequest p A K P)

include hP

theorem content_of_nested
    (hfire : ∀ events, Action.demandsOf true events ⊆ A → (n.fire p events).Keeps P fun _ => True)
    (hask : ∀ r, .request r ∈ A → (n.ask p r).Keeps P fun _ => True) :
    KeptByContent n p A true P fun _ => True where
  toKeptAside := hP.toKeptAside
  ask := hask
  start _ _ := Objectives.start_keeps (fun _ => hP.packages) hP.start
  cancel _ _ := Objectives.cancel_keeps hP.prune hP.cancel
  complete id hr := Objectives.complete_keeps (fun _ => hP.packages) fun he hdefined hactive => by
    have hA := hP.within .objective _ _ hdefined
    simp only [Kind.demands, Objective.demands, Set.union_subset_iff] at hA
    exact (hfire _ hA.2 _ (hP.complete he hr hactive)).mono fun _ _ _ he' => hP.prune _ he'
  overflow := trivial

/-- What content asks for keeps `P`. -/
theorem answer (hcontent : KeptByContent n p A true P fun _ => True) {r : Request}
    (hr : .request r ∈ A) : (r.answer n p).Keeps P fun _ => True := by
  have htalk : KeptByTalking n p A true K P fun _ => True :=
    ⟨hP.within, hP.packages, hcontent, hP.toKeptByTalk.scenes hcontent⟩
  cases r with
  | startConversation id => exact Talks.start_keeps htalk id
  | selectOption index => exact Talks.select_keeps htalk index
  | navigate command => exact Talks.navigate_keeps htalk command
  | endConversation => exact Talks.leave_keeps htalk .dismissed
  | disconnect => exact Talks.leave_keeps htalk .disconnected
  | talkState => exact Act.keeps_bind Act.keeps_get fun _ => Act.keeps_pure _
  | startObjective id => exact hcontent.start id hr
  | cancelObjective id => exact hcontent.cancel id hr
  | completeObjective id => exact hcontent.complete id hr
  | note entry => exact Act.keeps_modify fun _ he => hP.note entry he

/-- Content that keeps within `A` keeps `P` on every level of the engine. -/
theorem content (levels : Nat) : KeptByContent (nested levels) p A true P fun _ => True := by
  induction levels with
  | zero =>
    exact hP.content_of_nested (fun _ _ => Act.keeps_halt trivial) fun _ _ => Act.keeps_halt trivial
  | succ levels ih =>
    exact hP.content_of_nested (fun _ hA => Action.fireEach_keeps ih hA) fun _ hr => hP.answer ih hr

end KeptOnRequest

/-- Objectives are defined under their own identifiers. -/
def Packages.Titled (K : Packages) : Prop :=
  ∀ ⦃id definition⦄, K.get .objective id = .ok definition → definition.id = id

/-- So they are in all packages that are compiled, whatever the keywords are. -/
theorem titled_compile (registry : Registry) (sources : Sources) :
    (Packages.compile registry sources).Titled :=
  fun _ _ h => compile_id h

namespace Engine

variable {e₀ e e₁ e₂ e' : Engine} {held epoch : Nat} {id : ObjectId} {active : Active}
  {x : JournalEntry}

/-- Whatever has been completed since `e₀`, content that keeps within `A` may ask for it; and
nothing else waits to run. -/
structure OnRequest (A : Set Demand) (K : Packages) (e₀ e : Engine) : Prop where
  authored : e.Authored A (fun _ => True) K
  asked : ∀ x ∈ e.journal, x.what = .ended .completed →
    x ∈ e₀.journal ∨ .request (.completeObjective x.objective) ∈ A

theorem OnRequest.refl (h : e.Authored A (fun _ => True) K) : OnRequest A K e e :=
  ⟨h, fun _ hx _ => .inl hx⟩

/-- The journal goes on with what is no completion, or a completion that is asked for. -/
theorem OnRequest.extend (h : OnRequest A K e₀ e) (hauthored : e'.Authored A (fun _ => True) K)
    (more : Journal) (hjournal : e'.journal = more ++ e.journal)
    (hmore : ∀ x ∈ more, x.what = .ended .completed →
      .request (.completeObjective x.objective) ∈ A) : OnRequest A K e₀ e' where
  authored := hauthored
  asked x hx hcompleted := by
    rw [hjournal, List.mem_append] at hx
    rcases hx with hx | hx
    · exact .inr (hmore x hx hcompleted)
    · exact h.asked x hx hcompleted

theorem OnRequest.congr (h : OnRequest A K e₀ e) (hauthored : e'.Authored A (fun _ => True) K)
    (hjournal : e'.journal = e.journal) : OnRequest A K e₀ e' :=
  h.extend hauthored [] hjournal nofun

theorem onRequest_kept (hK : K.Within A true) (p : PlayerId) (e₀ : Engine) :
    KeptOnRequest p A K (OnRequest A K e₀) := by
  have hauthored := hK.authored
  have hchanges := (authored_keptByAll hauthored p).changes ()
  have htalk := authored_keptByTalk hauthored p
  exact
    { dice := fun he => he.congr (hchanges.dice he.authored) rfl
      place := fun _ _ he => he.congr (hchanges.place _ _ he.authored) rfl
      join := fun _ he => he.congr (hchanges.join _ he.authored) rfl
      render := fun _ he => he.congr (hchanges.render _ he.authored) rfl
      note := fun _ he => he.congr (hchanges.note _ he.authored) rfl
      later := fun he hown hagenda => he.congr (hchanges.later he.authored hown hagenda) rfl
      packages := fun he => he.authored.packages
      -- What is started is not active, and if it were it would end without being completed.
      start := fun {e id _} he hdefined hinactive => by
        refine he.extend (hchanges.start he.authored hdefined hinactive) _
          (e.journal_enter p id _ e.clock) fun x hx hcompleted => ?_
        rcases List.mem_cons.1 hx with rfl | hx
        · cases hcompleted
        · obtain ⟨former, -, rfl⟩ := List.mem_map.1 hx
          cases hcompleted
      cancel := fun {e held id active} he hactive =>
        he.extend (hchanges.cancel he.authored hactive)
          [⟨p, id, active.epoch, .ended .cancelled⟩] rfl (by simp)
      prune := fun _ he => he.congr (hchanges.prune _ he.authored) rfl
      talk := fun he hsession => htalk.talk he.authored hsession
      seat := fun screen he hdefined hfree =>
        he.congr (htalk.seat screen he.authored hdefined hfree) rfl
      put := fun session' he hsession htold hnumber hstyle =>
        he.congr (htalk.put session' he.authored hsession htold hnumber hstyle) rfl
      drop := fun he hsession => he.congr (htalk.drop he.authored hsession) rfl
      tell := fun number what he => he.congr (htalk.tell number what he.authored) rfl
      within := hK
      complete := fun {e held id active} he hr hactive =>
        he.extend (he.authored.congr rfl rfl rfl)
          [⟨p, id, active.epoch, .rewarded⟩, ⟨p, id, active.epoch, .ended .completed⟩] rfl
          (by simpa using hr) }

/-! ### Attempts -/

/-- An attempt at an objective: the slot that is held and what is found active there, what may be
asked for to judge whether the goal is reached, and the states before and after it. -/
structure Attempt where
  player : PlayerId
  held : Nat
  id : ObjectId
  active : Active
  asks : Set Demand
  before : Engine
  after : Engine

/-- In `e`, after the run of `cs`, a command is carried out, and in its course an attempt fails; the
failure leaves `e₁`. -/
inductive Fails (levels : Nat) (start : Engine) (cs : List Command) (e : Engine) :
    Command → Attempt → Engine → Prop
  /-- At its turn in a dispatch the goal of an objective fails to handle the event. -/
  | turn {event : GameEvent} {held : Nat} {id : ObjectId} {definition : Objective}
      {active : Active} {err : EvalError} {e₀ e₁ e' : Engine}
      (hturn : e.Turn levels event held id e₀)
      (hdefined : e.packages.get .objective id = .ok definition)
      (hactive : e₀.progress.findIn? event.player held id = some active)
      (hfails : (Act.attempt (definition.goal.handle (nested levels) event.player active.data
        event)).run e₀ = .ok (.error err, e₁))
      (hrun : (Objectives.offer (nested levels) e.packages event event.player held id).run e₀ =
        .ok ((), e')) :
      Fails levels start cs e (.dispatch event)
        ⟨event.player, held, id, active, definition.goal.demands, e₀, e'⟩ e₁
  /-- On a tick it is the turn of a check that counts still, and the check fails. -/
  | check {done : List (Appointment Task)} {s : Appointment Task} {p : PlayerId} {held : Nat}
      {id : ObjectId} {active : Active} {check : Recheck} {err : EvalError} {e₀ e₁ e' : Engine}
      (hcarries : CarriesOut levels start cs done s e₀ e')
      (htask : s.task = .recheck p id active.epoch check)
      (hheld : e₀.progress.held? p = some held)
      (hactive : e₀.progress.findIn? p held id = some active)
      (hfails : (Act.attempt (check.passes (nested levels) p)).run e₀ = .ok (.error err, e₁)) :
      Fails levels start cs e .tick ⟨p, held, id, active, check.demands, e₀, e'⟩ e₁

/-- In `e`, after the run of `cs`, a command is carried out, and in its course the goal of an
objective is reached with progress `data`; so much is stored in `e₁`. -/
inductive Reaches (levels : Nat) (start : Engine) (cs : List Command) (e : Engine) :
    Command → Attempt → Objective → Json → Engine → Prop
  /-- At its turn in a dispatch the goal is satisfied by the event on the progress that it has, and
  the progress it comes to is stored. -/
  | turn {event : GameEvent} {held : Nat} {id : ObjectId} {definition : Objective}
      {active now : Active} {data : Json} {e₀ e₁ e' : Engine}
      (hturn : e.Turn levels event held id e₀)
      (hdefined : e.packages.get .objective id = .ok definition)
      (hactive : e₀.progress.findIn? event.player held id = some active)
      (hsatisfied : (Act.attempt (definition.goal.handle (nested levels) event.player active.data
        event)).run e₀ = .ok (.ok (data, .satisfied), e₁))
      (hnow : e₁.progress.findIn? event.player held id = some now)
      (hepoch : now.epoch = active.epoch)
      (hrun : (Objectives.offer (nested levels) e.packages event event.player held id).run e₀ =
        .ok ((), e')) :
      Reaches levels start cs e (.dispatch event)
        ⟨event.player, held, id, active, definition.goal.demands, e₀, e'⟩ definition data
        (e₁.stored event.player held id now active.epoch data)
  /-- On a tick it is the turn of a check that counts still, and the check is passed. -/
  | check {done : List (Appointment Task)} {s : Appointment Task} {p : PlayerId} {held : Nat}
      {id : ObjectId} {definition : Objective} {active : Active} {check : Recheck}
      {e₀ e₁ e' : Engine} (hcarries : CarriesOut levels start cs done s e₀ e')
      (htask : s.task = .recheck p id active.epoch check)
      (hheld : e₀.progress.held? p = some held)
      (hactive : e₀.progress.findIn? p held id = some active)
      (hpassed : (Act.attempt (check.passes (nested levels) p)).run e₀ = .ok (.ok true, e₁))
      (hdefined : e₁.packages.get .objective id = .ok definition) :
      Reaches levels start cs e .tick ⟨p, held, id, active, check.demands, e₀, e'⟩ definition
        active.data e₁

/-- In the course of a command content runs, from `e₁` to `e₂`. -/
inductive Runs (levels : Nat) (start : Engine) (cs : List Command) (e : Engine) :
    Command → Engine → Engine → Prop
  /-- A goal handles the event. -/
  | goal {event : GameEvent} {held : Nat} {id : ObjectId} {definition : Objective} {active : Active}
      {r : Except EvalError (Json × Outcome)} {e₁ e₂ : Engine}
      (hturn : e.Turn levels event held id e₁)
      (hdefined : e.packages.get .objective id = .ok definition)
      (hactive : e₁.progress.findIn? event.player held id = some active)
      (hrun : (Act.attempt (definition.goal.handle (nested levels) event.player active.data
        event)).run e₁ = .ok (r, e₂)) :
      Runs levels start cs e (.dispatch event) e₁ e₂
  | check {done : List (Appointment Task)} {s : Appointment Task} {p : PlayerId} {id : ObjectId}
      {epoch : Nat} {check : Recheck} {r : Except EvalError Bool} {e₁ e₂ e' : Engine}
      (hcarries : CarriesOut levels start cs done s e₁ e')
      (htask : s.task = .recheck p id epoch check)
      (hrun : (Act.attempt (check.passes (nested levels) p)).run e₁ = .ok (r, e₂)) :
      Runs levels start cs e .tick e₁ e₂
  | conditions {c : Command} {a : Attempt} {definition : Objective} {data : Json} {met : Bool}
      {e₁ e₂ : Engine} (h : Reaches levels start cs e c a definition data e₁)
      (hrun : (allHold (nested levels) a.player definition.conditions).run e₁ = .ok (met, e₂)) :
      Runs levels start cs e c e₁ e₂
  /-- The events of an objective are fired that has been completed. -/
  | events {c : Command} {a : Attempt} {definition : Objective} {data : Json} {now : Active}
      {e₁ e₂ e₃ : Engine} (h : Reaches levels start cs e c a definition data e₁)
      (hmet : AllMet (nested levels) a.player definition.conditions e₁ e₂)
      (hactive : e₂.progress.findIn? a.player a.held definition.id = some now)
      (hepoch : now.epoch = a.active.epoch)
      (hrun : ((nested levels).fire a.player definition.events).run
        (e₂.completed a.player a.held definition.id now) = .ok ((), e₃)) :
      Runs levels start cs e c (e₂.completed a.player a.held definition.id now) e₃
  /-- The events of a delayed folder are fired. -/
  | folder {done : List (Appointment Task)} {s : Appointment Task} {p : PlayerId}
      {events : List EventRef} {e₁ e₂ : Engine} (hcarries : CarriesOut levels start cs done s e₁ e₂)
      (htask : s.task = .fire p events) : Runs levels start cs e .tick e₁ e₂

/-- What a command has completed was earned: in its course the goal of the objective was reached
under the epoch, all conditions were met, and in the state that the last of them has left the
objective was completed. -/
def Earned (levels : Nat) (start : Engine) (cs : List Command) (e : Engine) (c : Command)
    (x : JournalEntry) : Prop :=
  ∃ a definition data e₁, Reaches levels start cs e c a definition data e₁ ∧
    x.player = a.player ∧ x.objective = a.id ∧ x.epoch = a.active.epoch ∧
    Settles (nested levels) a.player a.held definition a.active.epoch e₁ true a.after

/-- In the course of a command something is written into the journal while content runs that keeps
within `A`, and an objective's completion may be asked for. -/
def Requested (levels : Nat) (start : Engine) (cs : List Command) (e : Engine) (c : Command)
    (A : Set Demand) (x : JournalEntry) : Prop :=
  .request (.completeObjective x.objective) ∈ A ∧
    ∃ e₁ e₂, Runs levels start cs e c e₁ e₂ ∧ x ∉ e₁.journal ∧ x ∈ e₂.journal

/-! ### What is written in the course of a command -/

section

variable {start : Engine} {cs : List Command} {c : Command} {a : Attempt} {definition : Objective}
  {data : Json} {done : Bool} {event : GameEvent}

/-- What content completes while it runs, it asks for. -/
theorem Runs.requested (h : Runs levels start cs e c e₁ e₂) (hafter : OnRequest A K e₁ e₂)
    (hcompleted : x.what = .ended .completed) (hnew : x ∉ e₁.journal) (hx : x ∈ e₂.journal) :
    Requested levels start cs e c A x :=
  ⟨(hafter.asked x hx hcompleted).resolve_left hnew, e₁, e₂, h, hnew, hx⟩

/-- What is completed while an objective is settled is the objective itself, or it is requested. -/
theorem Reaches.written (h : Reaches levels start cs e c a definition data e₁)
    (hK : K.Within A true) (hA : Objective.demands true definition ⊆ A)
    (he₁ : e₁.Authored A (fun _ => True) K)
    (hsettles : Settles (nested levels) a.player a.held definition a.active.epoch e₁ done e₂)
    (hcompleted : x.what = .ended .completed) (hnew : x ∉ e₁.journal) (hx : x ∈ e₂.journal) :
    (done = true ∧ x = ⟨a.player, definition.id, a.active.epoch, .ended .completed⟩) ∨
      Requested levels start cs e c A x := by
  simp only [Objective.demands, Set.union_subset_iff] at hA
  have hcontent (e₀ : Engine) := (onRequest_kept hK a.player e₀).content levels
  have hchecked {met : Bool} {e' : Engine}
      (hrun : (allHold (nested levels) a.player definition.conditions).run e₁ = .ok (met, e')) :
      OnRequest A K e₁ e' :=
    (allHold_keeps (hcontent e₁) hA.1.2 e₁ (.refl he₁)).of_run hrun
  cases hsettles with
  -- Unless the objective is completed, nothing but its conditions runs.
  | unmet hunmet =>
    exact .inr ((Runs.conditions h hunmet.run).requested (hchecked hunmet.run) hcompleted hnew hx)
  | stale hmet _ =>
    exact .inr ((Runs.conditions h hmet.run).requested (hchecked hmet.run) hcompleted hnew hx)
  | @completed now e₃ e₄ hmet hactive hepoch hfire =>
    have hbefore := hchecked hmet.run
    have hevents : OnRequest A K (e₃.completed a.player a.held definition.id now) e₄ := by
      cases levels with
      | zero => cases hfire
      | succ levels =>
        refine (Action.fireEach_keeps ((onRequest_kept hK a.player _).content levels) hA.2 _
          ?_).of_run hfire
        exact .refl (hbefore.authored.congr rfl rfl rfl)
    by_cases hfired : x ∈ (e₃.completed a.player a.held definition.id now).journal
    · -- What is written between the conditions and the events is the objective's own completion.
      have hjournal : (e₃.completed a.player a.held definition.id now).journal =
        ⟨a.player, definition.id, now.epoch, .rewarded⟩ ::
          ⟨a.player, definition.id, now.epoch, .ended .completed⟩ :: e₃.journal := rfl
      rw [hjournal, List.mem_cons, List.mem_cons] at hfired
      rcases hfired with rfl | rfl | hfired
      · cases hcompleted
      · exact .inl ⟨rfl, by rw [hepoch]⟩
      · exact .inr ((Runs.conditions h hmet.run).requested hbefore hcompleted hnew hfired)
    · exact .inr ((Runs.events h hmet hactive hepoch hfire).requested hevents hcompleted hfired hx)

/-- What an objective completes at its turn in a dispatch was earned, or it is requested. -/
theorem Turn.written (hturn : e.Turn levels event held id e₁)
    (hrun : (Objectives.offer (nested levels) e.packages event event.player held id).run e₁ =
      .ok ((), e₂))
    (hK : e.packages.Within A true) (htitled : e.packages.Titled)
    (he₁ : e₁.Authored A (fun _ => True) e.packages) (hcompleted : x.what = .ended .completed)
    (hnew : x ∉ e₁.journal) (hx : x ∈ e₂.journal) :
    Earned levels start cs e (.dispatch event) x ∨
      Requested levels start cs e (.dispatch event) A x := by
  cases hactive : e₁.progress.findIn? event.player held id with
  | none =>
    rw [Objectives.offer_of_inactive hactive] at hrun
    cases hrun
    exact absurd hx hnew
  | some active =>
  cases hdefined : e.packages.get .objective id with
  | error err =>
    rw [Objectives.offer_of_undefined hdefined] at hrun
    cases hrun
    exact absurd hx hnew
  | ok definition =>
  obtain rfl := htitled hdefined
  have hA := hK .objective _ _ hdefined
  have hgoal : definition.goal.demands ⊆ A := fun d hd => hA (.inl (.inl hd))
  have hafter {r : Except EvalError (Json × Outcome)} {e' : Engine}
      (h : (Act.attempt (definition.goal.handle (nested levels) event.player active.data
        event)).run e₁ = .ok (r, e')) : OnRequest A e.packages e₁ e' :=
    (Goal.handle_keeps ((onRequest_kept hK event.player e₁).content levels) hgoal active.data event
      e₁ (.refl he₁)).of_run h
  have hhandled {r : Except EvalError (Json × Outcome)} {e' : Engine}
      (h : (Act.attempt (definition.goal.handle (nested levels) event.player active.data
        event)).run e₁ = .ok (r, e')) (hx : x ∈ e'.journal) :
      Requested levels start cs e (.dispatch event) A x :=
    (Runs.goal hturn hdefined hactive h).requested (hafter h) hcompleted hnew hx
  -- To store progress completes nothing, so what is new afterwards was new before.
  have hstored {e' : Engine} {now : Active} {data : Json}
      (hx : x ∈ (e'.stored event.player held definition.id now active.epoch data).journal) :
      x ∈ e'.journal := by
    rcases List.mem_cons.1 hx with rfl | hx
    · cases hcompleted
    · exact hx
  cases (Objectives.offer_run_iff hdefined hactive).1 hrun with
  | failed h => exact .inr (hhandled h hx)
  | ignored h => exact .inr (hhandled h hx)
  | stale h _ => exact .inr (hhandled h hx)
  | deferred h _ => exact .inr (hhandled h hx)
  | @progressed data _ e' _ h hstore =>
    rcases Objectives.current_or_stale e' event.player held definition.id active.epoch with
      ⟨now, hnow, hepoch⟩ | hstale
    · rw [Objectives.store_of_current hnow hepoch] at hstore
      cases hstore
      exact .inr (hhandled h (hstored hx))
    · rw [Objectives.store_of_stale hstale] at hstore
      cases hstore
      exact .inr (hhandled h hx)
  | @satisfied data now done e' _ h hnow hepoch hsettles =>
    by_cases hbefore : x ∈ e'.journal
    · exact .inr (hhandled h hbefore)
    · have hreaches : Reaches levels start cs e (.dispatch event) _ definition data _ :=
        .turn hturn hdefined hactive h hnow hepoch hrun
      have hauthored := (hafter h).authored
      rcases hreaches.written hK hA (hauthored.congr rfl rfl rfl) hsettles hcompleted
        (fun h => hbefore (hstored h)) hx with ⟨rfl, rfl⟩ | hrequested
      · exact .inl ⟨_, definition, data, _, hreaches, rfl, rfl, rfl, hsettles⟩
      · exact .inr hrequested

/-- On a tick, what waits keeps within `A` when the turn of a task comes. -/
theorem CarriesOut.authored {tasks : List (Appointment Task)} {s : Appointment Task}
    (h : CarriesOut levels start cs tasks s e₁ e₂) (hbefore : performAll levels cs start = .ok e)
    (he : e.Authored A (fun _ => True) e.packages) (hK : e.packages.Within A true) :
    e₁.Authored A (fun _ => True) e.packages := by
  have hauthored := hK.authored
  cases h with
  | intro hbefore' hdue hdone _ =>
    cases hbefore.symm.trans hbefore'
    refine (Task.runEach_keeps (authored_keptByHost hauthored trivial).toKeptByTime
      (fun p => (authored_play hauthored levels p).toKeptByGoals) fun t ht => ?_).of_run
      ((authored_keptByHost hauthored (H := fun _ => True) trivial).tick he) hdone
    exact he.tasks t (Agenda.mem_of_mem_advance (by simp [hdue, ht]))

/-- A reminder writes nothing into the journal. -/
theorem ring_journal {r : Reminder} (h : r.ring.run e₁ = .ok ((), e₂)) :
    e₂.journal = e₁.journal := by
  obtain ⟨_, _, hget, h⟩ := Act.exists_of_run_bind h
  cases hget
  obtain ⟨_, _, hnote, h⟩ := Act.exists_of_run_bind h
  cases hnote
  obtain ⟨_, _, hget, h⟩ := Act.exists_of_run_bind h
  cases hget
  split at h
  · cases h
    rfl
  · cases h

/-- What a task completes on its tick was earned, or it is requested. -/
theorem CarriesOut.written {tasks : List (Appointment Task)} {s : Appointment Task}
    (hcarries : CarriesOut levels start cs tasks s e₁ e₂) (hK : e.packages.Within A true)
    (htitled : e.packages.Titled) (hs : s.task.demands true ⊆ A)
    (he₁ : e₁.Authored A (fun _ => True) e.packages) (hcompleted : x.what = .ended .completed)
    (hnew : x ∉ e₁.journal) (hx : x ∈ e₂.journal) :
    Earned levels start cs e .tick x ∨ Requested levels start cs e .tick A x := by
  have hcontent (p : PlayerId) := (onRequest_kept hK p e₁).content levels
  have hrun : (s.task.run (nested levels)).run e₁ = .ok ((), e₂) := by
    cases hcarries
    assumption
  -- Only a check that was put off completes what no content asks for.
  cases htask : s.task with
  | fire p events =>
    rw [htask] at hrun hs
    have hafter := (Action.fireEach_keeps (hcontent p) hs e₁ (.refl he₁)).of_run hrun
    exact .inr ((Runs.folder hcarries htask).requested hafter hcompleted hnew hx)
  | remind r =>
    rw [htask] at hrun
    have hsame : e₂.journal = e₁.journal := ring_journal hrun
    exact absurd (hsame ▸ hx) hnew
  | recheck p id epoch check =>
    rw [htask] at hs
    have hresume := hcarries.resume_run htask
    -- The check of a start that is over changes nothing.
    by_cases hlive : ∃ held, e₁.progress.held? p = some held ∧
        e₁.progress.isCurrent p held id epoch = true
    · obtain ⟨held, hheld, hcurrent⟩ := hlive
      have hpassing {r : Except EvalError Bool} {e' : Engine}
          (h : (Act.attempt (check.passes (nested levels) p)).run e₁ = .ok (r, e')) :
          OnRequest A e.packages e₁ e' :=
        (Recheck.passes_keeps (hcontent p) hs e₁ (.refl he₁)).of_run h
      cases (Objectives.resume_run_iff hheld hcurrent).1 hresume with
      | rejected h _ =>
        exact .inr ((Runs.check hcarries htask h).requested (hpassing h) hcompleted hnew hx)
      | undefined h _ =>
        exact .inr ((Runs.check hcarries htask h).requested (hpassing h) hcompleted hnew hx)
      | @passed definition done e' _ h hdefined hsettles =>
        have hafter := hpassing h
        -- What the check itself has asked for is content again.
        by_cases hbefore : x ∈ e'.journal
        · exact .inr ((Runs.check hcarries htask h).requested hafter hcompleted hnew hbefore)
        · obtain ⟨active, hactive, rfl⟩ := (Slots.isCurrent_iff _ _ _ _).1 hcurrent
          have hreaches := Reaches.check (e := e) hcarries htask hheld hactive h hdefined
          rw [hafter.authored.packages] at hdefined
          obtain rfl := htitled hdefined
          rcases hreaches.written hK (hK .objective _ _ hdefined) hafter.authored hsettles
            hcompleted hbefore hx with ⟨rfl, rfl⟩ | hrequested
          · exact .inl ⟨_, definition, _, _, hreaches, rfl, rfl, rfl, hsettles⟩
          · exact .inr hrequested
    · have hstale : ∀ held, e₁.progress.held? p = some held →
          e₁.progress.isCurrent p held id epoch = false :=
        fun held hheld => Bool.eq_false_iff.2 fun hcurrent => hlive ⟨held, hheld, hcurrent⟩
      rw [Objectives.resume_of_stale hstale] at hresume
      cases hresume
      exact absurd hx hnew

/-! ### Whole commands -/

/-- What is written from the turn of an objective on is written at somebody's turn. -/
theorem exists_turn_of_written (done : List ObjectId) {rest : List ObjectId}
    (hheld : e.progress.held? event.player = some held)
    (hids : e.progress.ids event.player = done ++ rest)
    (hdone : (Objectives.offerEach (nested levels) e.packages event event.player held done).run e =
      .ok ((), e₁))
    (hrun : (Objectives.offerEach (nested levels) e.packages event event.player held rest).run e₁ =
      .ok ((), e')) (hnew : x ∉ e₁.journal) (hx : x ∈ e'.journal) :
    ∃ id e₂ e₃, e.Turn levels event held id e₂ ∧
      (Objectives.offer (nested levels) e.packages event event.player held id).run e₂ =
        .ok ((), e₃) ∧ x ∉ e₂.journal ∧ x ∈ e₃.journal := by
  -- By induction on those whose turn is still to come, in whatever state it finds them.
  induction rest generalizing done e₁ with
  | nil =>
    cases hrun
    exact absurd hx hnew
  | cons id rest ih =>
    obtain ⟨_, e₂, hoffer, hrun⟩ := Act.exists_of_run_bind hrun
    by_cases hwritten : x ∈ e₂.journal
    · exact ⟨id, e₁, e₂, ⟨hheld, done, rest, hids, hdone⟩, hoffer, hnew, hwritten⟩
    · refine ih (done ++ [id]) (by simpa using hids) ?_ hrun hwritten
      rw [Objectives.offerEach_append]
      refine (Act.run_bind_of_run hdone).trans ?_
      exact (Act.run_bind_of_run hoffer).trans rfl

/-- What is written on a tick from the turn of a task on is written by some task. -/
theorem exists_task_of_written (tasks : List (Appointment Task)) {rest : List (Appointment Task)}
    (hbefore : performAll levels cs start = .ok e) (hdue : e.agenda.advance.1 = tasks ++ rest)
    (hdone : (Task.runEach (nested levels) tasks).run { e with agenda := e.agenda.advance.2 } =
      .ok ((), e₁))
    (hrun : (Task.runEach (nested levels) rest).run e₁ = .ok ((), e')) (hnew : x ∉ e₁.journal)
    (hx : x ∈ e'.journal) :
    ∃ tasks s e₂ e₃, s ∈ e.agenda.advance.1 ∧ CarriesOut levels start cs tasks s e₂ e₃ ∧
      x ∉ e₂.journal ∧ x ∈ e₃.journal := by
  induction rest generalizing tasks e₁ with
  | nil =>
    cases hrun
    exact absurd hx hnew
  | cons s rest ih =>
    obtain ⟨_, e₂, hs, hrun⟩ := Act.exists_of_run_bind hrun
    by_cases hwritten : x ∈ e₂.journal
    · exact ⟨tasks, s, e₁, e₂, by simp [hdue], .intro hbefore hdue hdone hs, hnew, hwritten⟩
    · refine ih (tasks ++ [s]) (by simpa using hdue) ?_ hrun hwritten
      rw [Task.runEach_append]
      refine (Act.run_bind_of_run hdone).trans ?_
      exact (Act.run_bind_of_run hs).trans rfl

/-- What a dispatch completes was earned, or it is requested. -/
theorem dispatch_written (he : e.Authored A (fun _ => True) e.packages)
    (hK : e.packages.Within A true) (htitled : e.packages.Titled)
    (h : e.perform levels (.dispatch event) = .ok ((), e'))
    (hcompleted : x.what = .ended .completed) (hnew : x ∉ e.journal) (hx : x ∈ e'.journal) :
    Earned levels start cs e (.dispatch event) x ∨
      Requested levels start cs e (.dispatch event) A x := by
  have hplay := authored_play hK.authored levels event.player
  cases hheld : e.progress.held? event.player with
  | none =>
    obtain ⟨_, _, hget, h⟩ := Act.exists_of_run_bind h
    cases hget
    rw [hheld] at h
    cases h
    exact absurd hx hnew
  | some held =>
    have hrun := (Objectives.dispatch_run (n := nested levels) held hheld rfl).symm.trans h
    obtain ⟨id, e₁, e₂, hturn, hoffer, hnew, hx⟩ :=
      exists_turn_of_written [] hheld rfl rfl hrun hnew hx
    have he₁ := hturn.keeps hplay.toKeptByGoals (authored_keptByDeferral event.player) he
    exact hturn.written hoffer hK htitled he₁ hcompleted hnew hx

/-- What a tick completes was earned, or it is requested. -/
theorem tick_written (hbefore : performAll levels cs start = .ok e)
    (he : e.Authored A (fun _ => True) e.packages) (hK : e.packages.Within A true)
    (htitled : e.packages.Titled) {count : Nat} (h : e.perform levels .tick = .ok (count, e'))
    (hcompleted : x.what = .ended .completed) (hnew : x ∉ e.journal) (hx : x ∈ e'.journal) :
    Earned levels start cs e .tick x ∨ Requested levels start cs e .tick A x := by
  obtain ⟨tasks, s, e₁, e₂, hs, hcarries, hnew, hx⟩ := exists_task_of_written [] hbefore
    rfl rfl (tick_run h) hnew hx
  have htask {t : Appointment Task} (ht : t ∈ e.agenda.advance.1) : t.task.demands true ⊆ A :=
    he.tasks t (Agenda.mem_of_mem_advance ht)
  exact hcarries.written hK htitled (htask hs) (hcarries.authored hbefore he hK) hcompleted hnew hx

/-! ### What attempts lead to -/

/-- After a failure nothing more happens. -/
theorem Fails.after_eq (h : Fails levels start cs e c a e₁) : a.after = e₁ := by
  cases h with
  | turn _ hdefined hactive hfails hrun =>
    cases ((Objectives.offer_run_iff hdefined hactive).2 (.failed hfails)).symm.trans hrun
    rfl
  | check hcarries htask hheld hactive hfails =>
    have hcurrent := (Slots.isCurrent_iff _ _ _ _).2 ⟨_, hactive, rfl⟩
    cases ((Objectives.resume_run_iff hheld hcurrent).2 (.rejected hfails nofun)).symm.trans
      (hcarries.resume_run htask)
    rfl

theorem Fails.aside (h : Fails levels start cs e c a e₁) (hasks : a.asks ⊆ Demand.aloof) :
    a.before.Aside e₁ := by
  cases h with
  | turn _ _ _ hfails _ => exact Goal.handle_aside hasks hfails
  | check _ _ _ _ hfails => exact Recheck.passes_aside hasks hfails

theorem Fails.findIn?_before (h : Fails levels start cs e c a e₁) :
    a.before.progress.findIn? a.player a.held a.id = some a.active := by
  cases h <;> assumption

/-- An objective whose goal is reached is settled, and that is all. -/
theorem Reaches.settles (h : Reaches levels start cs e c a definition data e₁) :
    ∃ done, Settles (nested levels) a.player a.held definition a.active.epoch e₁ done a.after := by
  cases h with
  | turn _ hdefined hactive hsatisfied hnow hepoch hrun =>
    cases (Objectives.offer_run_iff hdefined hactive).1 hrun with
    | satisfied h hnow' _ hsettles =>
      cases hsatisfied.symm.trans h
      cases hnow.symm.trans hnow'
      exact ⟨_, hsettles⟩
    | stale h hstale =>
      cases hsatisfied.symm.trans h
      exact absurd hepoch (Objectives.isCurrent_eq_false_iff.1 hstale _ hnow)
    | failed h | ignored h | progressed h | deferred h => cases hsatisfied.symm.trans h
  | check hcarries htask hheld hactive hpassed hdefined =>
    have hcurrent := (Slots.isCurrent_iff _ _ _ _).2 ⟨_, hactive, rfl⟩
    cases (Objectives.resume_run_iff hheld hcurrent).1 (hcarries.resume_run htask) with
    | passed h hdefined' hsettles =>
      cases hpassed.symm.trans h
      cases hdefined.symm.trans hdefined'
      exact ⟨_, hsettles⟩
    | undefined h hundefined =>
      cases hpassed.symm.trans h
      cases hdefined.symm.trans hundefined
    | rejected h hr =>
      cases hpassed.symm.trans h
      exact absurd rfl hr

/-- If a condition is not met, nothing more happens. -/
theorem Reaches.after_of_unmet (h : Reaches levels start cs e c a definition data e₁)
    (hunmet : Unmet (nested levels) a.player definition.conditions e₁ e₂) : a.after = e₂ := by
  obtain ⟨done, hsettles⟩ := h.settles
  cases (Objectives.settle_run_iff.2 hsettles).symm.trans
    (Objectives.settle_run_iff.2 (.unmet hunmet))
  rfl

/-- If all conditions are met and the objective is active since the same start, it is completed. -/
theorem Reaches.after_of_met {now : Active}
    (h : Reaches levels start cs e c a definition data e₁)
    (hmet : AllMet (nested levels) a.player definition.conditions e₁ e₂)
    (hactive : e₂.progress.findIn? a.player a.held definition.id = some now)
    (hepoch : now.epoch = a.active.epoch) :
    ∃ e₃, ((nested levels).fire a.player definition.events).run
        (e₂.completed a.player a.held definition.id now) = .ok ((), e₃) ∧
      a.after = e₃.pruned a.player a.held := by
  obtain ⟨done, hsettles⟩ := h.settles
  generalize hafter : a.after = e' at hsettles
  cases hsettles with
  | unmet hunmet => cases hmet.run.symm.trans hunmet.run
  | stale hmet' hstale =>
    cases hmet.run.symm.trans hmet'.run
    exact absurd hepoch (Objectives.isCurrent_eq_false_iff.1 hstale _ hactive)
  | completed hmet' hactive' _ hfire =>
    cases hmet.run.symm.trans hmet'.run
    cases hactive.symm.trans hactive'
    exact ⟨_, hfire, rfl⟩

/-- If the objective is judged without touching progress, it is active as before when its goal is
reached, with the progress that is reached. -/
theorem Reaches.findIn? (h : Reaches levels start cs e c a definition data e₁)
    (hasks : a.asks ⊆ Demand.aloof) :
    e₁.progress.findIn? a.player a.held a.id = some { a.active with data } := by
  cases h with
  | @turn event held id definition active now data e₀ e₁ e' _ _ hactive hsatisfied hnow _ _ =>
    have haside : e₀.Aside e₁ := Goal.handle_aside hasks hsatisfied
    rw [haside.progress, hactive] at hnow
    cases hnow
    have hactive' : e₁.progress.findIn? event.player held id = some active := by
      rw [haside.progress, hactive]
    have hheld : (e₁.stored event.player held id active active.epoch data).progress.held?
        event.player = some held :=
      (Slots.held?_changeIn ..).trans (Slots.held?_of_findIn? _ _ _ _ hactive')
    exact (Slots.findIn?_of_held? _ _ _ _ hheld).trans
      ((e₁.find?_stored _ _ _ _ _ _ _ hactive').trans (if_pos ⟨rfl, rfl⟩))
  | check _ _ _ hactive hpassed _ =>
    have haside := Recheck.passes_aside hasks hpassed
    rw [haside.progress]
    exact hactive

/-- Progress that a goal to kill is reached with is such that each further kill that counts reaches
it again. -/
theorem Reaches.again {entities : List String} {amount : Nat} {q : PlayerId} {entity : String}
    (h : Reaches levels start cs e (.dispatch event) a definition data e₁)
    (hgoal : definition.goal = .kill entities amount) (hcounts : countsKill entities entity = true)
    (n : Nested) (e₂ : Engine) :
    (Act.attempt (definition.goal.handle n a.player data (.entityKilled q entity))).run e₂ =
      .ok (.ok (data, .satisfied), e₂) := by
  obtain rfl : data = killData 0 := by
    cases h with
    | turn _ _ _ hsatisfied _ _ _ =>
      rw [hgoal] at hsatisfied
      exact Goal.eq_of_kill_satisfied hsatisfied
  rw [hgoal, Goal.handle_eq]
  simp only [Goal.accepts, Goal.respond, Goal.killsLeft?_killData (Nat.zero_le _), hcounts]
  rfl

/-! ### Content that leaves progress alone -/

/-- The packages in force are the first ones, or they have been put in force since. -/
theorem packages_mem_of_performAll (hrun : performAll levels cs start = .ok e) :
    e.packages = start.packages ∨ .replacePackages e.packages ∈ cs := by
  induction cs using List.reverseRecOn generalizing e with
  | nil =>
    cases hrun
    exact .inl rfl
  | append_singleton cs c ih =>
    obtain ⟨e₁, answer, hbefore, hlast⟩ := performAll_concat hrun
    have hpackages := (perform_steps hlast).packages_eq
    rcases c.mode_cases with ⟨records, rfl⟩ | ⟨packages, rfl⟩ | ⟨-, hsetting⟩
    · rw [hpackages]
      exact (ih hbefore).imp id fun h => List.mem_append_left _ h
    · obtain rfl : e.packages = packages := hpackages
      exact .inr (List.mem_append_right _ List.mem_cons_self)
    · rw [hpackages, hsetting]
      exact (ih hbefore).imp id fun h => List.mem_append_left _ h

/-- What holds of all objectives of the packages that a run puts in force holds of those that are in
force in the end. -/
theorem defined_of_performAll {Q : ObjectId → Objective → Prop}
    (hQ : ∀ packages, .replacePackages packages ∈ cs →
      ∀ id definition, packages.get .objective id = .ok definition → Q id definition)
    (hstart : start.packages = Packages.empty) (hrun : performAll levels cs start = .ok e)
    {id : ObjectId} (hdefined : e.packages.get .objective id = .ok definition) :
    Q id definition := by
  rcases packages_mem_of_performAll hrun with hpackages | hmem
  · obtain ⟨err, herr⟩ : ∃ err, Packages.empty.get .objective id = .error err := ⟨_, rfl⟩
    rw [hpackages, hstart, herr] at hdefined
    cases hdefined
  · exact hQ _ hmem _ _ hdefined

/-- The definition whose goal is reached is the one in force. -/
theorem Reaches.defined (h : Reaches levels start cs e c a definition data e₁)
    (hrun : performAll levels cs start = .ok e) :
    e.packages.get .objective a.id = .ok definition := by
  cases h with
  | turn _ hdefined => exact hdefined
  | @check _ _ _ _ _ _ _ check e₀ e₁ _ hcarries _ _ _ hpassed hdefined =>
    cases hcarries with
    | intro hbefore hdue hdone _ =>
      cases hrun.symm.trans hbefore
      have hbefore' := (Task.runEach_stepwise levels _ _ _ _ hdone).packages_eq
      have hpackages := (Recheck.passes_stepwise levels _ check _ _ _ hpassed).packages_eq
      rw [hpackages, hbefore'] at hdefined
      exact hdefined

section

variable (haloof : ∀ packages, .replacePackages packages ∈ cs →
  ∀ id definition, packages.get .objective id = .ok definition → definition.Aloof)
variable (hpackages : start.packages = Packages.empty) (hwaiting : start.agenda.waiting = [])

include haloof hpackages hwaiting

/-- A check leaves progress alone if the goals do that put checks off. -/
theorem CarriesOut.check_aloof {tasks : List (Appointment Task)} {s : Appointment Task}
    {check : Recheck} (h : CarriesOut levels start cs tasks s e₁ e₂)
    (htask : s.task = .recheck p id epoch check) : check.demands ⊆ Demand.aloof := by
  -- The goal that put the check off is of packages that were in force then, which are among all
  -- that the run has put in force.
  obtain ⟨before, event, after, e₀, -, hdeferred⟩ := h.deferred hwaiting htask
  have hbefore (packages : Packages) (hmem : .replacePackages packages ∈ before) :
      .replacePackages packages ∈ cs := by
    rw [hdeferred.split]
    exact List.mem_append_left _ hmem
  cases hdeferred.puts with
  | intro _ hdefined _ hputs =>
    have hgoal := defined_of_performAll (Q := fun _ o => o.Aloof)
      (fun packages hmem => haloof packages (hbefore packages hmem)) hpackages hdeferred.before
      hdefined
    exact (Goal.demands_of_deferred hputs).trans hgoal.1

theorem Fails.asks_aloof (hrun : performAll levels cs start = .ok e)
    (h : Fails levels start cs e c a e₁) : a.asks ⊆ Demand.aloof := by
  cases h with
  | turn _ hdefined _ _ _ =>
    exact (defined_of_performAll (Q := fun _ o => o.Aloof) haloof hpackages hrun hdefined).1
  | check hcarries htask _ _ _ => exact hcarries.check_aloof haloof hpackages hwaiting htask

theorem Reaches.asks_aloof (hrun : performAll levels cs start = .ok e)
    (h : Reaches levels start cs e c a definition data e₁) :
    a.asks ⊆ Demand.aloof ∧ Condition.demandsOf definition.conditions ⊆ Demand.aloof := by
  have hdefinition : definition.Aloof :=
    defined_of_performAll (Q := fun _ o => o.Aloof) haloof hpackages hrun (h.defined hrun)
  refine ⟨?_, hdefinition.2⟩
  cases h with
  | turn => exact hdefinition.1
  | check hcarries htask _ _ _ _ => exact hcarries.check_aloof haloof hpackages hwaiting htask

end

end

/-! ### Every run -/

/-- What may be asked for by the content of the packages that a run puts in force. -/
def contentDemands (cs : List Command) : Set Demand :=
  { d | ∃ packages k id, ∃ definition : k.Def, .replacePackages packages ∈ cs ∧
    packages.get k id = .ok definition ∧ d ∈ k.demands true definition }

variable {registry : Registry} {integrations : Integrations} {world : World} {archived : Bool}
  {screen : String} {clock : Calendar.Timestamp} {dice : Dice} {cs : List Command}

/-- All content keeps within what it asks for. -/
theorem authored_contentDemands {A : Set Demand} (hA : contentDemands cs ⊆ A)
    (hrun : performAll levels cs (fresh registry integrations world archived screen clock dice) =
      .ok e) :
    e.packages.Authored A (fun _ => True) ∧ e.Authored A (fun _ => True) e.packages := by
  refine authored_of_performAll (authored_fresh _ _ _ _ _ _ _) Packages.authored_empty
    (fun packages hmem => ⟨fun k id definition hdefined d hd => hA ?_, fun _ _ _ => trivial⟩) hrun
  exact ⟨packages, k, id, definition, hmem, hdefined, hd⟩

theorem titled_of_performAll
    (htitled : ∀ packages, .replacePackages packages ∈ cs → packages.Titled)
    (hrun : performAll levels cs (fresh registry integrations world archived screen clock dice) =
      .ok e) : e.packages.Titled :=
  fun _ _ hdefined => defined_of_performAll (Q := fun id definition => definition.id = id)
    (fun packages hmem _ _ h => htitled packages hmem h) rfl hrun hdefined

/-- **What is completed was earned.**  After a run, and whatever its packages contain:

* what a dispatch or a tick completes was earned, or else content asked for it while it ran: the
  goal of the objective was satisfied by the event on the progress that it had at its turn, or a
  check that it had put off was passed; then all its conditions were checked to true, one after
  another; and in the state that the last of them left it was completed;
* an attempt whose goal or check fails does nothing more, and if goal and check leave progress
  alone, the objective is active as before;
* an attempt that reaches the goal, and of whose conditions one is false or fails, does nothing more
  either, and if goal, check and conditions leave progress alone, the objective goes on under its
  epoch with the progress that it has reached;
* if all conditions are met then, and goal, check and conditions leave progress alone, the objective
  is completed; where kills are counted, each further kill that counts reaches the goal again;
* goals, checks and conditions of the built-in keywords leave progress alone.

Objectives have to be defined under their own identifiers, as they are in all packages that are
compiled (`titled_compile`). -/
theorem completions_earned
    (htitled : ∀ packages, .replacePackages packages ∈ cs → packages.Titled)
    (hrun : performAll levels cs (fresh registry integrations world archived screen clock dice) =
      .ok e) :
    (∀ c answer e', (c = .tick ∨ ∃ event, c = .dispatch event) →
      e.perform levels c = .ok (answer, e') → ∀ x ∈ e'.journal, x.what = .ended .completed →
        x ∉ e.journal →
          Earned levels (fresh registry integrations world archived screen clock dice) cs e c x ∨
          Requested levels (fresh registry integrations world archived screen clock dice) cs e c
            (contentDemands cs) x) ∧
    (∀ c a e₁,
      Fails levels (fresh registry integrations world archived screen clock dice) cs e c a e₁ →
      a.after = e₁ ∧ (a.asks ⊆ Demand.aloof → a.before.Aside a.after ∧
        a.after.progress.find? a.player a.id = some a.active)) ∧
    (∀ c a definition data e₁,
      Reaches levels (fresh registry integrations world archived screen clock dice) cs e c a
        definition data e₁ →
      (∀ e₂, Unmet (nested levels) a.player definition.conditions e₁ e₂ → a.after = e₂ ∧
        (a.asks ⊆ Demand.aloof → Condition.demandsOf definition.conditions ⊆ Demand.aloof →
          e₁.Aside a.after ∧
          a.after.progress.find? a.player a.id = some { a.active with data })) ∧
      (∀ e₂, AllMet (nested levels) a.player definition.conditions e₁ e₂ →
        a.asks ⊆ Demand.aloof → Condition.demandsOf definition.conditions ⊆ Demand.aloof →
          e₁.Aside e₂ ∧
          e₂.progress.findIn? a.player a.held a.id = some { a.active with data } ∧
          ∃ e₃, ((nested levels).fire a.player definition.events).run
              (e₂.completed a.player a.held a.id { a.active with data }) = .ok ((), e₃) ∧
            a.after = e₃.pruned a.player a.held) ∧
      (∀ event entities amount q entity e₂, c = .dispatch event →
        definition.goal = .kill entities amount → countsKill entities entity = true →
          (Act.attempt (definition.goal.handle (nested levels) a.player data
            (.entityKilled q entity))).run e₂ = .ok (.ok (data, .satisfied), e₂))) ∧
    ((∀ packages, .replacePackages packages ∈ cs → packages.OfKeywords) →
      (∀ c a e₁,
        Fails levels (fresh registry integrations world archived screen clock dice) cs e c a e₁ →
          a.asks ⊆ Demand.aloof) ∧
      ∀ c a definition data e₁,
        Reaches levels (fresh registry integrations world archived screen clock dice) cs e c a
          definition data e₁ →
            a.asks ⊆ Demand.aloof ∧
              Condition.demandsOf definition.conditions ⊆ Demand.aloof) := by
  obtain ⟨hK, he⟩ := authored_contentDemands Set.Subset.rfl hrun
  have htitle := titled_of_performAll htitled hrun
  refine ⟨?_, fun c a e₁ h => ⟨h.after_eq, fun hasks => ?_⟩, fun c a definition data e₁ h =>
    ⟨fun e₂ hunmet => ⟨h.after_of_unmet hunmet, fun hasks hconditions => ?_⟩,
      fun e₂ hmet hasks hconditions => ?_, ?_⟩, fun hkeywords => ?_⟩
  · rintro c answer e' (rfl | ⟨event, rfl⟩) h x hx hcompleted hnew
    · exact tick_written hrun he hK.within htitle h hcompleted hnew hx
    · exact dispatch_written he hK.within htitle h hcompleted hnew hx
  · have haside := h.aside hasks
    rw [h.after_eq]
    refine ⟨haside, ?_⟩
    rw [haside.progress]
    exact Slots.find?_of_findIn? _ _ _ _ h.findIn?_before
  · have haside : e₁.Aside e₂ := allHold_aside hconditions hunmet.run
    rw [h.after_of_unmet hunmet]
    refine ⟨haside, ?_⟩
    rw [haside.progress]
    exact Slots.find?_of_findIn? _ _ _ _ (h.findIn? hasks)
  · have haside : e₁.Aside e₂ := allHold_aside hconditions hmet.run
    have hactive : e₂.progress.findIn? a.player a.held a.id = some { a.active with data } := by
      rw [haside.progress]
      exact h.findIn? hasks
    have hid : definition.id = a.id := htitle (h.defined hrun)
    obtain ⟨e₃, hfire, hafter⟩ := h.after_of_met hmet
      (show e₂.progress.findIn? a.player a.held definition.id = some { a.active with data } from
        hid.symm ▸ hactive) rfl
    rw [hid] at hfire
    exact ⟨haside, hactive, e₃, hfire, hafter⟩
  · rintro event entities amount q entity e₂ rfl hgoal hcounts
    exact h.again hgoal hcounts (nested levels) e₂
  · have haloof (packages : Packages) (hmem : .replacePackages packages ∈ cs) (id : ObjectId)
        (definition : Objective) (hdefined : packages.get .objective id = .ok definition) :
        definition.Aloof := by
      obtain ⟨i, sources, rfl⟩ := hkeywords packages hmem
      exact compile_aloof hdefined
    exact ⟨fun c a e₁ h => h.asks_aloof haloof rfl rfl hrun,
      fun c a definition data e₁ h => h.asks_aloof haloof rfl rfl hrun⟩

/-! ### Wolves to kill under conditions -/

/-- Packages in which the objective `forest.wolves` is to kill a wolf under conditions. -/
def gated (conditions : List ConditionRef) : Packages where
  sources := ⟨(∅ : Table String PackageSource).insert "forest"
    { PackageSource.empty with
      objectives := (∅ : Table String String).insert "wolves" "mobkill wolf 1" }⟩
  built := Catalogue.empty.add .objective ⟨"forest", "wolves"⟩
    ⟨⟨"forest", "wolves"⟩, .kill ["wolf"] 1, conditions, []⟩
  broken := []
  diagnostics := []

theorem titled_gated (conditions : List ConditionRef) : (gated conditions).Titled := by
  intro id definition h
  have hmem : (id, definition) ∈ [((⟨"forest", "wolves"⟩ : ObjectId),
      (⟨⟨"forest", "wolves"⟩, .kill ["wolf"] 1, conditions, []⟩ : Objective))] :=
    Table.mem_entries_of_find? (Packages.find?_of_get h)
  cases List.mem_singleton.1 hmem
  rfl

/-- The objective is started. -/
def outset (conditions : List ConditionRef) : List Command :=
  [.replacePackages (gated conditions), .request ⟨"ann"⟩ (.startObjective ⟨"forest", "wolves"⟩)]

/-- Where the player has got with the objective when the wolf is killed. -/
def prowling (conditions : List ConditionRef) : Engine :=
  ({ bare with packages := gated conditions }).begun ⟨"ann"⟩ ⟨"forest", "wolves"⟩ (killData 1)

theorem performAll_outset (conditions : List ConditionRef) :
    performAll 1 (outset conditions) bare = .ok (prowling conditions) := rfl

/-- Nothing is left to kill. -/
def bitten (conditions : List ConditionRef) : Engine :=
  (prowling conditions).stored ⟨"ann"⟩ 0 ⟨"forest", "wolves"⟩ ⟨killData 1, 0, ⟨0, 0⟩⟩ 0 (killData 0)

/-- Whatever the conditions are, the goal is reached when the wolf is killed. -/
theorem reaches_bitten {conditions : List ConditionRef} {e' : Engine}
    (hrun : (Objectives.offer (nested 1) (gated conditions) (.entityKilled ⟨"ann"⟩ "wolf") ⟨"ann"⟩ 0
      ⟨"forest", "wolves"⟩).run (prowling conditions) = .ok ((), e')) :
    Reaches 1 bare (outset conditions) (prowling conditions)
      (.dispatch (.entityKilled ⟨"ann"⟩ "wolf"))
      ⟨⟨"ann"⟩, 0, ⟨"forest", "wolves"⟩, ⟨killData 1, 0, ⟨0, 0⟩⟩, ∅, prowling conditions, e'⟩
      ⟨⟨"forest", "wolves"⟩, .kill ["wolf"] 1, conditions, []⟩ (killData 0)
      (bitten conditions) := by
  have hids : (prowling conditions).progress.ids ⟨"ann"⟩ = [⟨"forest", "wolves"⟩] :=
    List.mergeSort_singleton _
  have hturn : (prowling conditions).Turn 1 (.entityKilled ⟨"ann"⟩ "wolf") 0 ⟨"forest", "wolves"⟩
      (prowling conditions) := ⟨rfl, [], [], hids, rfl⟩
  exact .turn hturn rfl rfl rfl rfl rfl hrun

/-- A condition that fails while the player is in no world. -/
def hidden : ConditionRef := ⟨⟨"forest", "hidden"⟩, false, .sneaking⟩

/-- The wolf is killed while nobody can see whether the player sneaks: the condition fails, and the
objective goes on with nothing left to kill. -/
theorem completions_earned_of_hidden : ∃ a definition e',
    (gated [hidden]).Titled ∧ performAll 1 (outset [hidden]) bare = .ok (prowling [hidden]) ∧
    Reaches 1 bare (outset [hidden]) (prowling [hidden])
      (.dispatch (.entityKilled ⟨"ann"⟩ "wolf")) a definition (killData 0) (bitten [hidden]) ∧
    Unmet (nested 1) a.player definition.conditions (bitten [hidden]) e' ∧ a.after = e' ∧
    a.after.progress.find? a.player a.id = some { a.active with data := killData 0 } := by
  have htitled : ∀ packages, .replacePackages packages ∈ outset [hidden] → packages.Titled := by
    intro packages hmem
    obtain rfl : packages = gated [hidden] := by simpa [outset] using hmem
    exact titled_gated _
  obtain ⟨e', hoffer⟩ : ∃ e', (Objectives.offer (nested 1) (gated [hidden])
      (.entityKilled ⟨"ann"⟩ "wolf") ⟨"ann"⟩ 0 ⟨"forest", "wolves"⟩).run (prowling [hidden]) =
        .ok ((), e') := ⟨_, rfl⟩
  have hreaches := reaches_bitten hoffer
  have hunmet : Unmet (nested 1) ⟨"ann"⟩ [hidden] (bitten [hidden]) (bitten [hidden]) :=
    .head rfl (nofun : Except.error (EvalError.playerOffline ⟨"ann"⟩) ≠ .ok true)
  have hconditions : Condition.demandsOf [hidden] ⊆ Demand.aloof := by
    simp [hidden, Condition.demandsOf, Condition.demands]
  obtain ⟨-, -, hsettled, -⟩ := completions_earned htitled (performAll_outset [hidden])
  obtain ⟨hkept, -, -⟩ := hsettled _ _ _ _ _ hreaches
  obtain ⟨hafter, haside⟩ := hkept _ hunmet
  exact ⟨_, _, _, titled_gated _, performAll_outset _, hreaches, hunmet, hafter,
    (haside (Set.empty_subset _) hconditions).2⟩

/-- A condition that cancels the objective and holds. -/
def quit : ConditionRef := ⟨⟨"forest", "quit"⟩, false,
  .custom (.ask (.cancelObjective ⟨"forest", "wolves"⟩) fun _ => .done true)⟩

/-- A condition that is false. -/
def never : ConditionRef := ⟨⟨"forest", "never"⟩, false, .custom (.done false)⟩

/-- A condition may itself cancel the objective that it is checked for: another condition is false
then, and still the objective is not active any more. -/
theorem cancelled_by_condition : ∃ a definition e',
    performAll 1 (outset [quit, never]) bare = .ok (prowling [quit, never]) ∧
    Reaches 1 bare (outset [quit, never]) (prowling [quit, never])
      (.dispatch (.entityKilled ⟨"ann"⟩ "wolf")) a definition (killData 0) (bitten [quit, never]) ∧
    Unmet (nested 1) a.player definition.conditions (bitten [quit, never]) e' ∧
    a.after.progress.find? a.player a.id = none := by
  obtain ⟨e', hoffer, hnone⟩ : ∃ e', (Objectives.offer (nested 1) (gated [quit, never])
      (.entityKilled ⟨"ann"⟩ "wolf") ⟨"ann"⟩ 0 ⟨"forest", "wolves"⟩).run (prowling [quit, never]) =
        .ok ((), e') ∧
      e'.progress.find? ⟨"ann"⟩ ⟨"forest", "wolves"⟩ = none := ⟨_, rfl, rfl⟩
  obtain ⟨e₁, hquit⟩ : ∃ e₁, (Act.attempt (quit.evaluate (nested 1) ⟨"ann"⟩)).run
      (bitten [quit, never]) = .ok (.ok true, e₁) := ⟨_, rfl⟩
  have hnever : (Act.attempt (never.evaluate (nested 1) ⟨"ann"⟩)).run e₁ = .ok (.ok false, e₁) :=
    rfl
  exact ⟨_, _, e₁, performAll_outset _, reaches_bitten hoffer,
    .tail hquit (.head hnever nofun), hnone⟩

end Engine

end Questbook
