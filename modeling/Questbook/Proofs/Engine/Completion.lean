/-
Questbook/Proofs/Engine/Completion.lean

Each start of an objective completes at most once.

Completion fires events while an outer dispatch, or a check that was put off, still has stale work
in hand, and those events may start, cancel or complete the same objective again.  By the life of
its epoch it is one start of it that counts: nothing is stored and nothing completed under an epoch
that has ended.

Main result: `rewarded_iff_completed`, on what the journal says of an epoch after any run.
-/
import Questbook.Proofs.Engine.Epochs

namespace Questbook

namespace Engine

variable {e e' : Engine} {p : PlayerId} {o : ObjectId} {levels : Nat}

open Ledger

/-! ### Operations -/

/-- After an objective is completed its epoch is closed, whatever its events do. -/
theorem completed_at {n : Nested} (hn : n.Stepwise) {φ : Stage} {held : Nat} {a : Active}
    {events : List EventRef} (h : e.ledger.At a.epoch φ)
    (hactive : e.progress.findIn? p held o = some a)
    (hfire : (n.fire p events).run (e.completed p held o a) = .ok ((), e')) :
    ∃ stores, φ = .running p o stores ∧ e'.ledger.At a.epoch (.closed p o stores .completed) := by
  have hcurrent : e.ledger.current p o = some a.epoch :=
    current_ledger (e.progress.find?_of_findIn? _ _ _ hactive)
  obtain ⟨stores, rfl⟩ := h.running_of_current hcurrent
  -- The epoch is closed before the events are fired, and what they do cannot open it again.
  have hcompleted : (e.completed p held o a).ledger.At a.epoch (.closed p o stores .completed) := by
    rw [ledger_completed hactive]
    refine h.close ?_ rfl rfl
    simp [Ledger.mark, assign, Journal.under_cons, Stage.close]
  obtain ⟨φ', h', hleads⟩ := (Steps.moves (hn.fire p events _ _ _ hfire)).at hcompleted
  rw [Stage.eq_of_leads_closed hleads] at h'
  exact ⟨stores, rfl, h'⟩

end Engine

namespace Objectives

open Engine

variable {n : Nested} {p : PlayerId} {o : ObjectId} {e e' : Engine}

/-- What a start that succeeds does. -/
theorem start_run (h : (start p o).run e = .ok (.ok (), e')) : ∃ definition,
    e.packages.get .objective o = .ok definition ∧ e' = e.begun p o definition.goal.initial := by
  obtain ⟨found, e₀, hfound, h⟩ := Act.exists_of_run_bind h
  obtain ⟨hdefined, rfl⟩ := Act.objective_run hfound
  cases found with
  | error err => cases h
  | ok definition =>
    obtain ⟨_, _, hget, h⟩ := Act.exists_of_run_bind h
    cases hget
    split at h
    · cases h
    · cases h
      exact ⟨definition, hdefined.symm, rfl⟩

/-- What a cancellation that succeeds does. -/
theorem cancel_run (h : (cancel p o).run e = .ok (.ok (), e')) : ∃ held a,
    e.progress.findIn? p held o = some a ∧
      e' = (e.removed p held o a .cancelled).pruned p held := by
  obtain ⟨_, _, hget, h⟩ := Act.exists_of_run_bind h
  cases hget
  split at h
  · cases h
  · rename_i held _
    obtain ⟨removed, e₁, hremove, hk⟩ := Act.exists_of_run_bind h
    rcases remove_cases hremove with ⟨rfl, rfl⟩ | ⟨a, hfind, -, rfl, rfl⟩
    · cases hk
    · cases hk
      exact ⟨held, a, hfind, rfl⟩

/-- What a completion that succeeds does. -/
theorem complete_run (h : (complete n p o).run e = .ok (.ok (), e')) : ∃ held a definition e₁,
    e.packages.get .objective o = .ok definition ∧ e.progress.findIn? p held o = some a ∧
    (n.fire p definition.events).run (e.completed p held o a) = .ok ((), e₁) ∧
    e' = e₁.pruned p held := by
  obtain ⟨found, e₀, hfound, h⟩ := Act.exists_of_run_bind h
  obtain ⟨hdefined, hunchanged⟩ := Act.objective_run hfound
  rw [hunchanged] at h
  cases found with
  | error err => cases h
  | ok definition =>
    obtain ⟨_, _, hget, h⟩ := Act.exists_of_run_bind h
    cases hget
    split at h
    · cases h
    · rename_i held _
      obtain ⟨removed, e₁, hremove, hk⟩ := Act.exists_of_run_bind h
      rcases remove_cases hremove with ⟨rfl, rfl⟩ | ⟨a, hfind, -, rfl, rfl⟩
      · cases hk
      · obtain ⟨_, e₂, hfinish, hrest⟩ := Act.exists_of_run_bind hk
        cases hrest
        exact ⟨held, a, definition, e₂, hdefined.symm, hfind, hfinish, rfl⟩

/-- What a completion that waits for its conditions does, if it comes about. -/
theorem settle_run {held epoch : Nat} {definition : Objective}
    (h : (settle n p held definition epoch).run e = .ok (true, e')) : ∃ e₁ e₂ a,
    (allHold n p definition.conditions).run e = .ok (true, e₁) ∧
    e₁.progress.findIn? p held definition.id = some a ∧ a.epoch = epoch ∧
    (n.fire p definition.events).run (e₁.completed p held definition.id a) = .ok ((), e₂) ∧
    e' = e₂.pruned p held := by
  obtain ⟨met, e₁, hmet, h⟩ := Act.exists_of_run_bind h
  split at h
  · rename_i htrue
    subst htrue
    obtain ⟨removed, _, hremove, hk⟩ := Act.exists_of_run_bind h
    rcases remove_cases hremove with ⟨rfl, rfl⟩ | ⟨a, hfind, hepoch, rfl, rfl⟩
    · cases hk
    · obtain rfl : epoch = a.epoch := by simpa using hepoch
      obtain ⟨_, e₂, hfinish, hrest⟩ := Act.exists_of_run_bind hk
      cases hrest
      exact ⟨e₁, e₂, a, hmet, hfind, rfl, hfinish, rfl⟩
  · cases h

end Objectives

namespace Engine

open Ledger

variable {e e' : Engine} {levels : Nat} {cs : List Command}

/-! ### The epochs of an engine -/

/-- Every epoch stands at some stage. -/
def Charted (e : Engine) : Prop := ∀ epoch, ∃ φ, e.ledger.At epoch φ

theorem charted_fresh (registry : Registry) (integrations : Integrations) (world : World)
    (archived : Bool) (screen : String) (clock : Calendar.Timestamp) (dice : Dice) :
    (fresh registry integrations world archived screen clock dice).Charted :=
  fun epoch => ⟨.unborn, at_fresh registry integrations world archived screen clock dice epoch⟩

theorem Charted.of_moves (he : e.Charted) (hmoves : Moves e.ledger e'.ledger) : e'.Charted := by
  intro epoch
  obtain ⟨φ, h⟩ := he epoch
  obtain ⟨φ', h', -⟩ := hmoves.at h
  exact ⟨φ', h'⟩

theorem charted_of_performAll {registry : Registry} {integrations : Integrations} {world : World}
    {archived : Bool} {screen : String} {clock : Calendar.Timestamp} {dice : Dice}
    {cs : List Command}
    (h : performAll levels cs (fresh registry integrations world archived screen clock dice) =
      .ok e) :
    e.Charted :=
  (charted_fresh registry integrations world archived screen clock dice).of_moves
    (performAll_moves h)

/-- An epoch is entered once, and rewarded just as often as it is completed, once at most. -/
theorem Charted.times_le (he : e.Charted) (epoch : Nat) : e.journal.times epoch .entered ≤ 1 ∧
    e.journal.times epoch .rewarded ≤ 1 ∧
    e.journal.times epoch .rewarded = e.journal.times epoch (.ended .completed) := by
  obtain ⟨φ, h⟩ := he epoch
  simp only [times_of_at h]
  exact ⟨φ.count_entered_le, φ.count_rewarded_le, φ.count_rewarded⟩

theorem Charted.entered_of_active (he : e.Charted) {p : PlayerId} {o : ObjectId} {a : Active}
    (hactive : e.progress.find? p o = some a) : e.journal.times a.epoch .entered = 1 := by
  obtain ⟨φ, h⟩ := he a.epoch
  obtain ⟨stores, rfl⟩ := h.running_of_current (current_ledger hactive)
  rw [times_of_at h]
  simp [Stage.happenings, List.count_replicate]

/-- Nothing more happens under an epoch that has ended. -/
theorem Charted.sealed (he : e.Charted) (hafter : performAll levels cs e = .ok e') {epoch : Nat}
    {how : Ending} (hended : 0 < e.journal.times epoch (.ended how)) :
    e'.journal.under epoch = e.journal.under epoch ∧
    e'.journal.times epoch .rewarded = (if how = .completed then 1 else 0) ∧
    ∀ p o a, e'.progress.find? p o = some a → a.epoch ≠ epoch := by
  obtain ⟨φ, h⟩ := he epoch
  obtain ⟨φ', h', hleads⟩ := (performAll_moves hafter).at h
  rw [times_of_at h] at hended
  obtain ⟨p, o, stores, rfl⟩ := Stage.eq_closed_of_count hended
  rw [Stage.eq_of_leads_closed hleads] at h'
  refine ⟨h'.course.trans h.course.symm, ?_, fun q x a => not_active_of_closed h'⟩
  rw [times_of_at h']
  cases how <;> simp [Stage.happenings, Stage.close, List.count_replicate]

/-- What comes after the end of an epoch, be it within the command that ended it, is no more than
the reward of its completion. -/
theorem Charted.reward_of_ended (he : e.Charted) {epoch : Nat} {earlier later : List JournalEntry}
    {x : JournalEntry} {how : Ending} (hunder : e.journal.under epoch = earlier ++ x :: later)
    (hended : x.what = .ended how) :
    later.map JournalEntry.what = if how = .completed then [.rewarded] else [] := by
  obtain ⟨φ, h⟩ := he epoch
  have hcourse : e.journal.under epoch = φ.course epoch := h.course
  have hhappenings : φ.happenings = earlier.map JournalEntry.what ++
      .ended how :: later.map JournalEntry.what := by
    rw [← φ.map_what_course epoch, ← hcourse, hunder, List.map_append, List.map_cons, hended]
  exact Stage.eq_reward_of_ended hhappenings

/-! ### New epochs -/

theorem Charted.new_of_start (he : e.Charted) {p : PlayerId} {o : ObjectId}
    (hrun : e.perform levels (.request p (.startObjective o)) = .ok (.ok (), e')) :
    ∃ a, e'.progress.find? p o = some a ∧ e.journal.under a.epoch = [] := by
  obtain ⟨definition, -, rfl⟩ := Objectives.start_run hrun
  obtain ⟨φ, h⟩ := he e.progress.nextEpoch
  exact ⟨_, (e.find?_enter p p o o _ e.clock).trans (if_pos ⟨rfl, rfl⟩),
    under_eq_nil_of_le h (Nat.le_refl _)⟩

theorem Charted.new_of_restore (he : e.Charted) {records : List ProgressRecord} {count : Nat}
    (hrun : e.perform levels (.restore records) = .ok (count, e')) {r : ProgressRecord}
    (hr : r ∈ records)
    (hdefined : ∃ definition, e.packages.get .objective r.objective = .ok definition) :
    ∃ a, e'.progress.find? r.player r.objective = some a ∧ e.journal.under a.epoch = [] := by
  obtain ⟨definition, hdefined⟩ := hdefined
  obtain ⟨a, hactive, hnew⟩ := restored hrun hr hdefined
  obtain ⟨φ, h⟩ := he a.epoch
  exact ⟨a, hactive, under_eq_nil_of_le h hnew⟩

theorem Charted.new_of_reload (he : e.Charted) {packages : Packages}
    {answer : (Command.replacePackages packages).Answer}
    (hrun : e.perform levels (.replacePackages packages) = .ok (answer, e')) {p : PlayerId}
    {o : ObjectId} {a : Active} (hactive : e'.progress.find? p o = some a) :
    e.progress.find? p o = some a ∨ e.journal.under a.epoch = [] := by
  have hsteps : Steps .reload { e with packages } e' := perform_steps hrun
  rcases hsteps.active_or_new (by simp) hactive with hbefore | hnew
  · exact .inl hbefore
  · obtain ⟨φ, h⟩ := he a.epoch
    exact .inr (under_eq_nil_of_le h hnew)

/-! ### Rewards -/

theorem Charted.rewarded_of_complete (he : e.Charted) {p : PlayerId} {o : ObjectId}
    (hrun : e.perform levels (.request p (.completeObjective o)) = .ok (.ok (), e')) :
    ∃ a, e.progress.find? p o = some a ∧ e.journal.times a.epoch .rewarded = 0 ∧
      e'.journal.times a.epoch .rewarded = 1 := by
  obtain ⟨held, a, definition, e₁, -, hfind, hfire, rfl⟩ := Objectives.complete_run hrun
  obtain ⟨φ, h⟩ := he a.epoch
  obtain ⟨stores, rfl, hclosed⟩ := completed_at (nested_stepwise levels) h hfind hfire
  rw [← ledger_pruned e₁ p held] at hclosed
  refine ⟨a, e.progress.find?_of_findIn? _ _ _ hfind, ?_, ?_⟩
  · rw [times_of_at h]
    simp [Stage.happenings, List.count_replicate]
  · rw [times_of_at hclosed]
    simp [Stage.happenings, Stage.close, List.count_replicate]

theorem Charted.rewarded_of_settle (he : e.Charted) {p : PlayerId} {held epoch : Nat}
    {definition : Objective}
    (hrun : (Objectives.settle (nested levels) p held definition epoch).run e = .ok (true, e')) :
    e.journal.times epoch .rewarded = 0 ∧ e'.journal.times epoch .rewarded = 1 := by
  obtain ⟨e₁, e₂, a, hmet, hfind, rfl, hfire, rfl⟩ := Objectives.settle_run hrun
  obtain ⟨φ, h⟩ := he a.epoch
  -- The conditions may run scripts of their own, but the epoch has come through them alive.
  have hchecked : Steps .play e e₁ := (nested_stepwise levels).checks _ _ _ _ _ hmet
  obtain ⟨φ₁, h₁, hleads⟩ := hchecked.moves.at h
  obtain ⟨stores, rfl, hclosed⟩ := completed_at (nested_stepwise levels) h₁ hfind hfire
  rw [← ledger_pruned e₂ p held] at hclosed
  refine ⟨?_, ?_⟩
  · rw [times_of_at h]
    rcases Stage.of_leads_running hleads with rfl | ⟨earlier, rfl⟩ <;>
      simp [Stage.happenings, List.count_replicate]
  · rw [times_of_at hclosed]
    simp [Stage.happenings, Stage.close, List.count_replicate]

theorem Charted.unrewarded_of_cancel (he : e.Charted) {p : PlayerId} {o : ObjectId}
    (hrun : e.perform levels (.request p (.cancelObjective o)) = .ok (.ok (), e')) :
    ∃ a, e.progress.find? p o = some a ∧ e'.journal.times a.epoch (.ended .cancelled) = 1 ∧
      e'.journal.times a.epoch .rewarded = 0 := by
  obtain ⟨held, a, hfind, rfl⟩ := Objectives.cancel_run hrun
  have hactive := e.progress.find?_of_findIn? _ _ _ hfind
  obtain ⟨φ, h⟩ := he a.epoch
  obtain ⟨stores, rfl⟩ := h.running_of_current (current_ledger hactive)
  have hjournal : ((e.removed p held o a .cancelled).pruned p held).journal =
    ⟨p, o, a.epoch, .ended .cancelled⟩ :: e.journal := rfl
  refine ⟨a, hactive, ?_, ?_⟩ <;>
  · rw [hjournal, Journal.times_cons, times_of_at h]
    simp [Stage.happenings, List.count_replicate]

/-- Neither a reload nor what is read back rewards anything. -/
theorem times_rewarded_of_mode {c : Command} {answer : c.Answer} (hmode : c.mode ≠ .play)
    (hrun : e.perform levels c = .ok (answer, e')) (epoch : Nat) :
    e'.journal.times epoch .rewarded = e.journal.times epoch .rewarded := by
  have hsteps := perform_steps hrun
  have hsetting : (c.setting e).journal = e.journal := by cases c <;> rfl
  rw [hsteps.times_rewarded hmode, hsetting]

/-! ### Every run -/

/-- **Each start is completed at most once.**  Between two moments of a run, the later one being as
far on as one likes:

* whatever is active was entered once, and was active under the same epoch before, or else its epoch
  is one that was of no use before;
* a start, a record that is read back and progress that a reload begins anew have such a new epoch;
* an epoch belongs to one objective of one player, it is entered once, and it is rewarded just as
  often as it is completed, once at most;
* nothing happens under an epoch that has ended, and it was rewarded only if it ended as completed;
* a completion and a check that is passed end their epoch as completed, a cancellation ends it
  without reward, and neither a reload nor what is read back from storage rewards anything;
* within a command too, all that comes after the end of an epoch is the reward of its completion;
* and what the journal calls a reward is one: the objective is taken out first, and then, whatever
  its content is and whoever completes it, all the events of its definition are fired, once. -/
theorem rewarded_iff_completed {registry : Registry} {integrations : Integrations} {world : World}
    {archived : Bool} {screen : String} {clock : Calendar.Timestamp} {dice : Dice}
    {before after : List Command}
    (hbefore : performAll levels before
      (fresh registry integrations world archived screen clock dice) = .ok e)
    (hafter : performAll levels after e = .ok e') :
    (∀ p o a, e'.progress.find? p o = some a → e'.journal.times a.epoch .entered = 1 ∧
      ((∃ b, e.progress.find? p o = some b ∧ b.epoch = a.epoch) ∨
        e.journal.under a.epoch = [])) ∧
    (∀ p o e'', e'.perform levels (.request p (.startObjective o)) = .ok (.ok (), e'') →
      ∃ a, e''.progress.find? p o = some a ∧ e'.journal.under a.epoch = []) ∧
    (∀ records count e'', e'.perform levels (.restore records) = .ok (count, e'') →
      ∀ r ∈ records, (∃ definition, e'.packages.get .objective r.objective = .ok definition) →
        ∃ a, e''.progress.find? r.player r.objective = some a ∧
          e'.journal.under a.epoch = []) ∧
    (∀ packages answer e'', e'.perform levels (.replacePackages packages) = .ok (answer, e'') →
      ∀ p o a, e''.progress.find? p o = some a →
        e'.progress.find? p o = some a ∨ e'.journal.under a.epoch = []) ∧
    (∀ epoch, ∃ p o, (∀ x ∈ e'.journal.under epoch, x.player = p ∧ x.objective = o) ∧
      ∀ q x a, e'.progress.find? q x = some a → a.epoch = epoch → q = p ∧ x = o) ∧
    (∀ epoch, e'.journal.times epoch .entered ≤ 1 ∧ e'.journal.times epoch .rewarded ≤ 1 ∧
      e'.journal.times epoch .rewarded = e'.journal.times epoch (.ended .completed)) ∧
    (∀ epoch how, 0 < e.journal.times epoch (.ended how) →
      e'.journal.under epoch = e.journal.under epoch ∧
      e'.journal.times epoch .rewarded = (if how = .completed then 1 else 0) ∧
      ∀ p o a, e'.progress.find? p o = some a → a.epoch ≠ epoch) ∧
    (∀ p o e'', e'.perform levels (.request p (.completeObjective o)) = .ok (.ok (), e'') →
      ∃ a, e'.progress.find? p o = some a ∧ e'.journal.times a.epoch .rewarded = 0 ∧
        e''.journal.times a.epoch .rewarded = 1) ∧
    (∀ p held definition epoch e'',
      (Objectives.settle (nested levels) p held definition epoch).run e' = .ok (true, e'') →
      e'.journal.times epoch .rewarded = 0 ∧ e''.journal.times epoch .rewarded = 1) ∧
    (∀ p o e'', e'.perform levels (.request p (.cancelObjective o)) = .ok (.ok (), e'') →
      ∃ a, e'.progress.find? p o = some a ∧ e''.journal.times a.epoch (.ended .cancelled) = 1 ∧
        e''.journal.times a.epoch .rewarded = 0) ∧
    (∀ c answer e'', c.mode ≠ .play → e'.perform levels c = .ok (answer, e'') →
      ∀ epoch, e''.journal.times epoch .rewarded = e'.journal.times epoch .rewarded) ∧
    (∀ epoch earlier x later how, e'.journal.under epoch = earlier ++ x :: later →
      x.what = .ended how →
        later.map JournalEntry.what = if how = .completed then [.rewarded] else []) ∧
    (∀ n p o e₁ e₂, (Objectives.complete n p o).run e₁ = .ok (.ok (), e₂) →
      ∃ held a definition e₃, e₁.packages.get .objective o = .ok definition ∧
        e₁.progress.findIn? p held o = some a ∧
        (n.fire p definition.events).run (e₁.completed p held o a) = .ok ((), e₃) ∧
        e₂ = e₃.pruned p held) ∧
    (∀ n p held definition epoch e₁ e₂,
      (Objectives.settle n p held definition epoch).run e₁ = .ok (true, e₂) →
      ∃ met a e₃, (allHold n p definition.conditions).run e₁ = .ok (true, met) ∧
        met.progress.findIn? p held definition.id = some a ∧ a.epoch = epoch ∧
        (n.fire p definition.events).run (met.completed p held definition.id a) = .ok ((), e₃) ∧
        e₂ = e₃.pruned p held) := by
  have hcharted : e.Charted := charted_of_performAll hbefore
  have hcharted' : e'.Charted := hcharted.of_moves (performAll_moves hafter)
  refine ⟨fun p o a hactive => ?_, fun p o e'' => hcharted'.new_of_start,
    fun records count e'' hrun r => hcharted'.new_of_restore hrun,
    fun packages answer e'' hrun p o a => hcharted'.new_of_reload hrun, fun epoch => ?_,
    hcharted'.times_le, fun epoch how => hcharted.sealed hafter,
    fun p o e'' => hcharted'.rewarded_of_complete,
    fun p held definition epoch e'' => hcharted'.rewarded_of_settle,
    fun p o e'' => hcharted'.unrewarded_of_cancel,
    fun c answer e'' => times_rewarded_of_mode,
    fun epoch earlier x later how => hcharted'.reward_of_ended,
    fun n p o e₁ e₂ => Objectives.complete_run, fun n p held definition epoch e₁ e₂ hrun => ?_⟩
  · obtain ⟨φ, h⟩ := hcharted a.epoch
    obtain ⟨φ', h', hleads⟩ := (performAll_moves hafter).at h
    exact ⟨hcharted'.entered_of_active hactive, epoch_of_active hactive h h' hleads⟩
  · obtain ⟨φ', h'⟩ := hcharted' epoch
    exact ⟨φ'.owner.1, φ'.owner.2, owner_of_at h'⟩
  · obtain ⟨met, e₃, a, hrun⟩ := Objectives.settle_run hrun
    exact ⟨met, a, e₃, hrun⟩

/-- An objective that is completed and started again begins under another epoch, and the epoch it
was completed under is rewarded once. -/
theorem rewarded_iff_completed_of_restart :
    ∃ e e', performAll 1 [.replacePackages wolves,
        .request ⟨"ann"⟩ (.startObjective ⟨"forest", "wolves"⟩),
        .request ⟨"ann"⟩ (.completeObjective ⟨"forest", "wolves"⟩)] bare = .ok e ∧
      performAll 1 [.request ⟨"ann"⟩ (.startObjective ⟨"forest", "wolves"⟩)] e = .ok e' ∧
      e'.journal.times 0 .rewarded = 1 ∧
      ∃ a, e'.progress.find? ⟨"ann"⟩ ⟨"forest", "wolves"⟩ = some a ∧ a.epoch ≠ 0 := by
  obtain ⟨e, e', a, hbefore, hafter, hended, hactive⟩ : ∃ e e' a,
      performAll 1 [.replacePackages wolves,
        .request ⟨"ann"⟩ (.startObjective ⟨"forest", "wolves"⟩),
        .request ⟨"ann"⟩ (.completeObjective ⟨"forest", "wolves"⟩)] bare = .ok e ∧
      performAll 1 [.request ⟨"ann"⟩ (.startObjective ⟨"forest", "wolves"⟩)] e = .ok e' ∧
      e.journal.times 0 (.ended .completed) = 1 ∧
      e'.progress.find? ⟨"ann"⟩ ⟨"forest", "wolves"⟩ = some a := ⟨_, _, _, rfl, rfl, rfl, rfl⟩
  obtain ⟨-, -, -, -, -, -, hclosed, -⟩ := rewarded_iff_completed hbefore hafter
  obtain ⟨-, hrewarded, hfree⟩ := hclosed 0 .completed (by rw [hended]; exact Nat.one_pos)
  exact ⟨e, e', hbefore, hafter, hrewarded, a, hactive, hfree _ _ a hactive⟩

end Engine

end Questbook
