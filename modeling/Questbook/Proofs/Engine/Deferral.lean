/-
Questbook/Proofs/Engine/Deferral.lean

Where the checks that wait come from.

A goal may put a check off to the next tick, and nothing else in the engine puts checks off: content
schedules the events of delayed folders, and a host his reminders.  So whatever check waits was put
off by an objective at its turn in a dispatch, under the epoch that it was active under by then; and
since the next tick takes all checks out of the agenda, that dispatch came after the last one.

Main result: `deferred_of_performAll`.
-/
import Mathlib.Data.List.Induction
import Questbook.Proofs.Engine.Schedule
import Questbook.Proofs.Engine.Turns

namespace Questbook

namespace Engine

variable {K : Packages} {S S' : Set Task} {e e' e₁ : Engine} {levels : Nat} {event : GameEvent}
  {p : PlayerId}

/-! ### The checks that wait -/

/-- The packages `K` are in force, and every check that waits is among `S` and comes out on the next
tick. -/
structure Defers (K : Packages) (S : Set Task) (e : Engine) : Prop where
  packages : e.packages = K
  checks : ∀ a ∈ e.agenda.waiting, ∀ q id epoch check, a.task = .recheck q id epoch check →
    a.task ∈ S ∧ a.due ≤ e.agenda.tick + 1

theorem Defers.mono (h : e.Defers K S) (hS : S ⊆ S') : e.Defers K S' where
  packages := h.packages
  checks a ha q id epoch check htask := by
    obtain ⟨hmem, hdue⟩ := h.checks a ha q id epoch check htask
    exact ⟨hS hmem, hdue⟩

/-- A change that touches neither packages nor agenda. -/
theorem Defers.congr (h : e.Defers K S) (hpackages : e'.packages = e.packages)
    (hagenda : e'.agenda = e.agenda) : e'.Defers K S where
  packages := hpackages.trans h.packages
  checks := hagenda ▸ h.checks

/-- Scheduling tasks, with checks for the next tick only. -/
theorem Defers.later (h : e.Defers K S) {tasks : List (Nat × Task)} {agenda : Agenda Task}
    (hchecks : ∀ t ∈ tasks, ∀ q id epoch check, t.2 = .recheck q id epoch check →
      t.2 ∈ S ∧ t.1 ≤ 1)
    (hagenda : e.agenda.afterAll? tasks = some agenda) : Defers K S { e with agenda } where
  packages := h.packages
  checks a ha q id epoch check htask := by
    have htick : agenda.tick = e.agenda.tick := Agenda.tick_afterAll? hagenda
    show a.task ∈ S ∧ a.due ≤ agenda.tick + 1
    rw [htick]
    rcases Agenda.mem_of_afterAll? hagenda ha with hbefore | ⟨ticks, hmem, hdue⟩
    · exact h.checks a hbefore q id epoch check htask
    · obtain ⟨hS, hticks⟩ := hchecks _ hmem q id epoch check htask
      refine ⟨hS, ?_⟩
      rw [hdue, Agenda.dueAfter, max_eq_right hticks]

/-! ### What puts no check off -/

/-- What depends on nothing but packages and agenda, and is kept where work is scheduled that is no
check. -/
structure KeptByAgenda (K : Packages) (P : Engine → Prop) : Prop where
  packages {e : Engine} (he : P e) : e.packages = K
  congr {e e' : Engine} (he : P e) (hpackages : e'.packages = e.packages)
    (hagenda : e'.agenda = e.agenda) : P e'
  later {e : Engine} {tasks : List (Nat × Task)} {agenda : Agenda Task} (he : P e)
    (hchecks : ∀ t ∈ tasks, ∀ q id epoch check, t.2 ≠ .recheck q id epoch check)
    (hagenda : e.agenda.afterAll? tasks = some agenda) : P { e with agenda }

namespace KeptByAgenda

variable {P : Engine → Prop} (hP : KeptByAgenda K P)

include hP

theorem keptByAll (p : PlayerId) : KeptByAll p Set.univ true K fun _ : Unit => P where
  within _ _ _ _ := Set.subset_univ _
  changes _ :=
    { dice := fun he => hP.congr he rfl rfl
      place := fun _ _ he => hP.congr he rfl rfl
      join := fun _ he => hP.congr he rfl rfl
      render := fun _ he => hP.congr he rfl rfl
      note := fun _ he => hP.congr he rfl rfl
      later := fun he hown hagenda => hP.later he (fun t ht q id epoch check htask => by
        have hof := hown t ht
        rw [htask] at hof
        exact hof.elim) hagenda
      packages := hP.packages
      start := fun {e id definition} he _ _ => hP.congr he
        (e.packages_begun p id definition.goal.initial)
        (e.agenda_begun p id definition.goal.initial)
      store := fun he _ _ _ => hP.congr he rfl rfl
      cancel := fun he _ => hP.congr he rfl rfl
      prune := fun _ he => hP.congr he rfl rfl }
  complete he _ := ⟨(), hP.congr he rfl rfl, fun _ he => hP.congr he rfl rfl⟩

theorem keptByTalk (p : PlayerId) : KeptByTalk p Set.univ true K P where
  talk _ _ := Set.subset_univ _
  seat _ he _ _ := hP.congr he rfl rfl
  put _ he _ _ _ _ := hP.congr he rfl rfl
  drop he _ := hP.congr he rfl rfl
  tell _ _ he := hP.congr he rfl rfl

theorem play (levels : Nat) (p : PlayerId) :
    KeptByPlay (nested levels) p Set.univ true K P fun _ => True :=
  (hP.keptByAll p).keptByPlay (fun _ => hP.keptByTalk p) trivial trivial levels ()

theorem reload (p : PlayerId) : KeptByReload p K P where
  drop he _ _ := hP.congr he rfl rfl
  renew he _ _ _ := hP.congr he rfl rfl
  prune _ he := hP.congr he rfl rfl

theorem remind_keeps {tasks : List (Nat × Task)} (hreminders : ∀ t ∈ tasks, ∃ r, t.2 = .remind r) :
    (Act.later tasks).Keeps P fun _ => True := by
  refine Act.keeps_get_bind fun e he => ?_
  split
  · rename_i agenda hagenda
    refine hP.later he (fun t ht q id epoch check htask => ?_) hagenda
    obtain ⟨r, hr⟩ := hreminders t ht
    cases hr.symm.trans htask
  · trivial

/-- A task whose tick has come, whatever it is. -/
theorem task_keeps (levels : Nat) (t : Task) : (t.run (nested levels)).Keeps P fun _ => True := by
  cases t with
  | fire p events => exact Action.fireEach_keeps (hP.play levels p).content (Set.subset_univ _)
  | recheck p id epoch check =>
    exact Objectives.resume_keeps (hP.play levels p).toKeptByGoals epoch (Set.subset_univ _)
  | remind r =>
    refine Act.keeps_bind Act.keeps_get fun e =>
      Act.keeps_bind (Act.keeps_modify fun _ he => hP.congr he rfl rfl) fun _ =>
        hP.remind_keeps fun t ht => ?_
    obtain ⟨x, -, rfl⟩ := List.mem_map.1 ht
    exact ⟨x.2, rfl⟩

theorem tasks_keep (levels : Nat) (due : List (Appointment Task)) :
    (Task.runEach (nested levels) due).Keeps P fun _ => True := by
  induction due with
  | nil => exact Act.keeps_pure _
  | cons a rest ih => exact Act.keeps_bind (hP.task_keeps levels a.task) fun _ => ih

/-- A command leaves packages and agenda at that, unless it puts packages in force, puts checks off
or takes work out. -/
theorem command_keeps (levels : Nat) {c : Command} (htick : c ≠ .tick)
    (hreload : ∀ packages, c ≠ .replacePackages packages)
    (hdefer : ∀ event, c = .dispatch event → KeptByDeferral event.player Set.univ P) :
    (c.perform (nested levels)).Keeps P fun _ => True := by
  cases c with
  | tick => exact absurd rfl htick
  | replacePackages packages => exact absurd rfl (hreload packages)
  | remind ticks r =>
    refine hP.remind_keeps fun t ht => ?_
    rw [List.mem_singleton.1 ht]
    exact ⟨r, rfl⟩
  | restore records =>
    exact Objectives.restore_keeps (fun {e definition id data} p startedAt he _ _ =>
      hP.congr he (e.packages_enter p id data startedAt) (e.agenda_enter p id data startedAt))
      records
  | changeWorld f => exact Act.keeps_modify fun _ he => hP.congr he rfl rfl
  | setClock clock => exact Act.keeps_modify fun _ he => hP.congr he rfl rfl
  | request p r =>
    exact Command.perform_keeps_of_player (hP.play levels p).toKeptByGoals rfl hdefer
      fun r _ => r.answer_keeps (hP.play levels p)
  | check p | evaluate p | fire p | display p | value p =>
    exact Command.perform_keeps_of_player (hP.play levels p).toKeptByGoals rfl hdefer nofun
  | dispatch event =>
    exact Command.perform_keeps_of_player (hP.play levels event.player).toKeptByGoals rfl hdefer
      nofun

end KeptByAgenda

theorem defers_keptByAgenda (K : Packages) (S : Set Task) : KeptByAgenda K (Defers K S) where
  packages he := he.packages
  congr he := he.congr
  later he hchecks := he.later fun t ht q id epoch check htask =>
    absurd htask (hchecks t ht q id epoch check)

/-! ### Ticks -/

/-- The next tick takes all checks that wait out of the agenda. -/
theorem Defers.advance (he : e.Defers K S) :
    Defers K ∅ { e with agenda := e.agenda.advance.2 } where
  packages := he.packages
  checks a ha q id epoch check htask := by
    obtain ⟨-, hdue⟩ := he.checks a (Agenda.mem_of_mem_rest ha) q id epoch check htask
    exact absurd (Agenda.lt_due_of_mem_rest ha) (Nat.not_lt.2 hdue)

/-- A tick carries out what is due by then. -/
theorem tick_run {count : Nat} (h : e.perform levels .tick = .ok (count, e')) :
    (Task.runEach (nested levels) e.agenda.advance.1).run { e with agenda := e.agenda.advance.2 } =
      .ok ((), e') := by
  obtain ⟨_, _, hget, h⟩ := Act.exists_of_run_bind h
  cases hget
  obtain ⟨_, _, hmodify, h⟩ := Act.exists_of_run_bind h
  cases hmodify
  obtain ⟨_, _, hdue, h⟩ := Act.exists_of_run_bind h
  cases h
  exact hdue

/-- After a tick no check waits. -/
theorem tick_defers {count : Nat} (he : e.Defers K S)
    (h : e.perform levels .tick = .ok (count, e')) : e'.Defers K ∅ := by
  have hkeeps := (defers_keptByAgenda K ∅).tasks_keep levels e.agenda.advance.1
  exact hkeeps.of_run he.advance (tick_run h)

/-- No command puts a check off, other than to dispatch an event. -/
theorem perform_defers {c : Command} {answer : c.Answer} (he : e.Defers K S)
    (hc : ∀ event, c ≠ .dispatch event) (h : e.perform levels c = .ok (answer, e')) :
    ∃ K', e'.Defers K' S := by
  by_cases htick : c = .tick
  · subst htick
    exact ⟨K, (tick_defers he h).mono (Set.empty_subset S)⟩
  by_cases hreload : ∃ packages, c = .replacePackages packages
  · obtain ⟨packages, rfl⟩ := hreload
    have hkeeps : (Objectives.reconcile packages).Keeps (Defers packages S) fun _ => True :=
      Objectives.reconcile_keeps (defers_keptByAgenda packages S).reload
    exact ⟨packages, hkeeps.of_run (e := { e with packages }) ⟨rfl, he.checks⟩ h⟩
  · have hkeeps : (c.perform (nested levels)).Keeps (Defers K S) fun _ => True :=
      (defers_keptByAgenda K S).command_keeps levels htick
        (fun packages hc => hreload ⟨packages, hc⟩) fun event hevent => absurd hevent (hc event)
    exact ⟨K, hkeeps.of_run he h⟩

/-! ### Dispatches -/

/-- In a dispatch from `e`, the goal of an objective that is active under an epoch when its turn
comes puts a check off. -/
inductive PutsOff (levels : Nat) (event : GameEvent) (e : Engine) :
    ObjectId → Nat → Recheck → Prop
  | intro {held : Nat} {id : ObjectId} {e₁ e₂ : Engine} {active : Active} {definition : Objective}
      {data : Json} {check : Recheck} (hturn : e.Turn levels event held id e₁)
      (hdefined : e.packages.get .objective id = .ok definition)
      (hactive : e₁.progress.findIn? event.player held id = some active)
      (hrun : StateT.run (ExceptT.run
        (definition.goal.handle (nested levels) event.player active.data event)) e₁ =
          .ok (.ok (data, .deferred check), e₂)) :
      PutsOff levels event e id active.epoch check

/-- The checks that a dispatch from `e` puts off. -/
def putOff (levels : Nat) (event : GameEvent) (e : Engine) : Set Task :=
  { t | ∃ id epoch check, t = .recheck event.player id epoch check ∧
    e.PutsOff levels event id epoch check }

/-- From the turn of an objective on, a dispatch puts off what its turns do. -/
theorem offerEach_defers {held : Nat} (done : List ObjectId) {rest : List ObjectId}
    (hheld : e.progress.held? event.player = some held)
    (hids : e.progress.ids event.player = done ++ rest)
    (hdone : (Objectives.offerEach (nested levels) e.packages event event.player held done).run e =
      .ok ((), e₁)) (he₁ : e₁.Defers e.packages (S ∪ e.putOff levels event)) :
    (Objectives.offerEach (nested levels) e.packages event event.player held rest).Ensures e₁
      (fun _ => True) fun _ => Defers e.packages (S ∪ e.putOff levels event) := by
  induction rest generalizing done e₁ with
  | nil => exact he₁
  | cons id rest ih =>
    have hturn : e.Turn levels event held id e₁ := ⟨hheld, done, rest, hids, hdone⟩
    refine Act.ensures_bind (Objectives.offer_ensures
      ((defers_keptByAgenda e.packages _).play levels _).toKeptByGoals event he₁
      fun hdefined hactive hrun he₂ hagenda => ?_) ?_
    · refine he₂.later (fun t ht q x epoch check htask => ?_) hagenda
      obtain rfl := List.mem_singleton.1 ht
      exact ⟨.inr ⟨_, _, _, rfl, .intro hturn hdefined hactive hrun⟩, le_rfl⟩
    · intro _ e₂ hoffer he₂
      refine ih (done ++ [id]) (by simpa using hids) ?_ he₂
      -- The turn that is over is the last one of those that have been.
      rw [Objectives.offerEach_append]
      refine (Act.run_bind_of_run hdone).trans ?_
      exact (Act.run_bind_of_run hoffer).trans rfl

theorem dispatch_defers (he : e.Defers K S)
    (h : e.perform levels (.dispatch event) = .ok ((), e')) :
    e'.Defers K (S ∪ e.putOff levels event) := by
  have he' : e.Defers K (S ∪ e.putOff levels event) := he.mono Set.subset_union_left
  obtain ⟨_, _, hget, h⟩ := Act.exists_of_run_bind h
  cases hget
  cases hheld : e.progress.held? event.player with
  | none =>
    rw [hheld] at h
    cases h
    exact he'
  | some held =>
    rw [hheld] at h
    rw [← he.packages] at he' ⊢
    exact (offerEach_defers [] hheld rfl rfl he').of_run h

/-! ### Runs -/

/-- In the run of `cs` a dispatch has put a check off, and there has been no tick since: `before`
has led to `e₀`, where the event was dispatched, and `after` has come after it. -/
structure Deferred (levels : Nat) (start : Engine) (cs before after : List Command)
    (event : GameEvent) (e₀ : Engine) (id : ObjectId) (epoch : Nat) (check : Recheck) : Prop where
  split : cs = before ++ .dispatch event :: after
  recent : Command.tick ∉ after
  before : performAll levels before start = .ok e₀
  puts : e₀.PutsOff levels event id epoch check

/-- The checks that the dispatches of a run have put off since its last tick. -/
def deferred (levels : Nat) (start : Engine) (cs : List Command) : Set Task :=
  { t | ∃ before event after e₀ id epoch check, t = .recheck event.player id epoch check ∧
    Deferred levels start cs before after event e₀ id epoch check }

variable {start : Engine} {cs : List Command} {c : Command}

theorem deferred_concat (hc : c ≠ .tick) :
    deferred levels start cs ⊆ deferred levels start (cs ++ [c]) := by
  rintro t ⟨before, event, after, e₀, id, epoch, check, ht, h⟩
  refine ⟨before, event, after ++ [c], e₀, id, epoch, check, ht, ?_, ?_, h.before, h.puts⟩
  · simp [h.split]
  · simp [h.recent, hc.symm]

theorem putOff_subset_deferred (hbefore : performAll levels cs start = .ok e) :
    e.putOff levels event ⊆ deferred levels start (cs ++ [.dispatch event]) := by
  rintro t ⟨id, epoch, check, ht, hputs⟩
  exact ⟨cs, event, [], e, id, epoch, check, ht, rfl, by simp, hbefore, hputs⟩

/-- **Checks are put off by dispatches.**  Every check that waits at the end of a run was put off by
a dispatch since its last tick, and comes out on the next one. -/
theorem deferred_of_performAll (hstart : start.agenda.waiting = [])
    (hrun : performAll levels cs start = .ok e) :
    e.Defers e.packages (deferred levels start cs) := by
  suffices h : ∃ K, e.Defers K (deferred levels start cs) by
    obtain ⟨K, he⟩ := h
    exact he.packages.symm ▸ he
  induction cs using List.reverseRecOn generalizing e with
  | nil =>
    cases hrun
    exact ⟨_, rfl, fun a ha => by rw [hstart] at ha; cases ha⟩
  | append_singleton cs c ih =>
    obtain ⟨e₁, answer, hbefore, hlast⟩ := performAll_concat hrun
    obtain ⟨K, he₁⟩ := ih hbefore
    by_cases htick : c = .tick
    · subst htick
      exact ⟨K, (tick_defers he₁ hlast).mono (Set.empty_subset _)⟩
    by_cases hdispatch : ∃ event, c = .dispatch event
    · obtain ⟨event, rfl⟩ := hdispatch
      refine ⟨K, (dispatch_defers he₁ hlast).mono (Set.union_subset ?_ ?_)⟩
      · exact deferred_concat nofun
      · exact putOff_subset_deferred hbefore
    · obtain ⟨K', he⟩ := perform_defers he₁ (fun event h => hdispatch ⟨event, h⟩) hlast
      exact ⟨K', he.mono (deferred_concat htick)⟩

end Engine

end Questbook
