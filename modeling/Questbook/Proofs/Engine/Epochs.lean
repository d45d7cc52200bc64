/-
Questbook/Proofs/Engine/Epochs.lean

The epochs of an engine.

Every step of progress is a chain of moves of the ledger, so that the life of each epoch, as
`Ledger` reads it off from the moves, is its life in every run of the engine.  What begins to be
active gets the next epoch: a start, a record that is read back, and progress that a reload begins
anew.  Only play rewards.
-/
import Mathlib.Data.List.Induction
import Questbook.Proofs.Engine.Ledger

namespace Questbook

namespace Engine

variable {mode : Mode} {e e' : Engine} {p q : PlayerId} {o x : ObjectId}

/-- The ledger of the engine. -/
def ledger (e : Engine) : Ledger where
  current p o := (e.progress.find? p o).map Active.epoch
  nextEpoch := e.progress.nextEpoch
  journal := e.journal

open Ledger

theorem current_ledger {a : Active} (h : e.progress.find? p o = some a) :
    e.ledger.current p o = some a.epoch := by
  simp [ledger, h]

/-- What a change of one objective is to the ledger. -/
theorem current_ledger_of_find? {now : Option Active}
    (h : ∀ q x, e'.progress.find? q x = if p = q ∧ o = x then now else e.progress.find? q x) :
    e'.ledger.current = (e.ledger.assign p o (now.map Active.epoch)).current := by
  funext q x
  by_cases hkey : p = q ∧ o = x <;> simp [ledger, assign, h, hkey]

theorem ledger_pruned (e : Engine) (p : PlayerId) (held : Nat) :
    (e.pruned p held).ledger = e.ledger := by
  refine Ledger.ext ?_ (e.progress.nextEpoch_prune p held) rfl
  funext q x
  simp [ledger, find?_pruned]

theorem ledger_ended {held : Nat} {a : Active} (how : Ending)
    (h : e.progress.findIn? p held o = some a) :
    (e.ended p held o a how).ledger =
      (e.ledger.assign p o none).mark p o a.epoch (.ended how) := by
  refine Ledger.ext ?_ ?_ rfl
  · exact current_ledger_of_find? fun q x => e.find?_ended p q held o x how h
  · exact Slots.nextEpoch_changeIn e.progress p held _

theorem ledger_stored {held : Nat} {a : Active} (data : Json)
    (h : e.progress.findIn? p held o = some a) :
    (e.stored p held o a a.epoch data).ledger = e.ledger.mark p o a.epoch .stored := by
  refine Ledger.ext ?_ ?_ rfl
  · rw [current_ledger_of_find? fun q x => e.find?_stored p q held o x data a.epoch h]
    funext q x
    by_cases hkey : p = q ∧ o = x
    · obtain ⟨rfl, rfl⟩ := hkey
      have hfind : e.progress.find? p o = some a := e.progress.find?_of_findIn? _ _ _ h
      simp [assign, Ledger.mark, current_ledger hfind]
    · simp [assign, Ledger.mark, hkey]
  · exact Slots.nextEpoch_changeIn e.progress p held _

theorem ledger_completed {held : Nat} {a : Active} (h : e.progress.findIn? p held o = some a) :
    (e.completed p held o a).ledger =
      ((e.ledger.assign p o none).mark p o a.epoch (.ended .completed)).mark p o a.epoch
        .rewarded :=
  congrArg (·.mark p o a.epoch .rewarded) (ledger_ended .completed h)

/-- What is entered ends first, if it is active. -/
theorem moves_enter (e : Engine) (p : PlayerId) (o : ObjectId) (data : Json)
    (startedAt : Calendar.Timestamp) : Moves e.ledger (e.enter p o data startedAt).2.ledger := by
  have hcurrent : (e.enter p o data startedAt).2.ledger.current =
      (e.ledger.assign p o (some e.progress.nextEpoch)).current :=
    current_ledger_of_find? fun q x => e.find?_enter p q o x data startedAt
  have hnext : (e.enter p o data startedAt).2.ledger.nextEpoch = e.ledger.nextEpoch + 1 :=
    e.nextEpoch_enter p o data startedAt
  have hjournal := e.journal_enter p o data startedAt
  cases hformer : e.progress.find? p o with
  | none =>
    rw [hformer] at hjournal
    have henter : Move e.ledger ((e.ledger.issue.assign p o (some e.progress.nextEpoch)).mark p o
        e.progress.nextEpoch .entered) := .enter (by simp [ledger, hformer])
    have heq : (e.enter p o data startedAt).2.ledger =
        (e.ledger.issue.assign p o (some e.progress.nextEpoch)).mark p o e.progress.nextEpoch
          .entered := Ledger.ext hcurrent hnext hjournal
    exact .single (heq ▸ henter)
  | some former =>
    rw [hformer] at hjournal
    exact .renew (current_ledger hformer) hcurrent hnext hjournal

/-- A step of progress is a chain of moves of the ledger. -/
theorem Step.moves (h : Step mode e e') : Moves e.ledger e'.ledger := by
  cases h with
  | aside hprogress houtbox hjournal =>
    have heq : e'.ledger = e.ledger := by simp only [ledger, hprogress, hjournal]
    rw [heq]
  | prune =>
    rw [ledger_pruned]
  | start => exact moves_enter e _ _ _ _
  | restore => exact moves_enter e _ _ _ _
  | store hactive data =>
    have hfind := e.progress.find?_of_findIn? _ _ _ hactive
    rw [ledger_stored data hactive]
    exact .single (.store (current_ledger hfind))
  | cancel hactive =>
    have hfind := e.progress.find?_of_findIn? _ _ _ hactive
    have heq := ledger_ended .cancelled hactive
    exact .single (heq ▸ .quit (current_ledger hfind) nofun)
  | complete hactive =>
    have hfind := e.progress.find?_of_findIn? _ _ _ hactive
    rw [ledger_completed hactive]
    exact .single (.complete (current_ledger hfind))
  | drop hactive =>
    have hfind := e.progress.find?_of_findIn? _ _ _ hactive
    rw [ledger_ended .dropped hactive]
    exact .single (.quit (current_ledger hfind) nofun)
  | renew hactive =>
    have hfind := e.progress.find?_of_findIn? _ _ _ hactive
    refine .renew (current_ledger hfind) ?_ ?_ rfl
    · exact current_ledger_of_find? fun q x => e.find?_renewed _ q _ _ x _ hactive
    · exact Slots.nextEpoch_changeIn e.progress.issueEpoch.2 _ _ _

theorem Steps.moves (h : Steps mode e e') : Moves e.ledger e'.ledger := by
  induction h with
  | refl => exact .refl
  | tail _ hstep ih => exact ih.trans hstep.moves

/-! ### Runs -/

variable {levels : Nat} {cs : List Command} {epoch : Nat}

theorem perform_moves {c : Command} {answer : c.Answer}
    (h : e.perform levels c = .ok (answer, e')) : Moves e.ledger e'.ledger := by
  have hmoves : Moves (c.setting e).ledger e'.ledger := (perform_steps h).moves
  have hsetting : (c.setting e).ledger = e.ledger := by cases c <;> rfl
  rwa [hsetting] at hmoves

theorem performAll_moves (h : performAll levels cs e = .ok e') : Moves e.ledger e'.ledger := by
  -- The run grows at its end, where the chain of moves does.
  induction cs using List.reverseRecOn generalizing e' with
  | nil =>
    cases h
    exact .refl
  | append_singleton cs c ih =>
    obtain ⟨e₁, answer, hbefore, hlast⟩ := performAll_concat h
    exact (ih hbefore).trans (perform_moves hlast)

/-- In an engine without progress no epoch is born. -/
theorem at_fresh (registry : Registry) (integrations : Integrations) (world : World)
    (archived : Bool) (screen : String) (clock : Calendar.Timestamp) (dice : Dice) (epoch : Nat) :
    (fresh registry integrations world archived screen clock dice).ledger.At epoch .unborn where
  course := rfl
  holder q x := by simp [ledger, fresh, Stage.holder, Slots.find?, Slots.activeOf, Slots.empty]
  unborn := by simp [ledger, fresh, Slots.empty]

theorem times_of_at {φ : Stage} (h : e.ledger.At epoch φ) (what : Happening) :
    e.journal.times epoch what = φ.happenings.count what := by
  have hcourse : e.journal.under epoch = φ.course epoch := h.course
  rw [Journal.times, hcourse, φ.countP_course]

/-! ### What a stage tells of the engine -/

variable {φ φ' : Stage}

/-- Who is active has kept the epoch he had, or has one that was of no use before. -/
theorem epoch_of_active {p : PlayerId} {o : ObjectId} {a : Active}
    (hactive : e'.progress.find? p o = some a) (h : e.ledger.At a.epoch φ)
    (h' : e'.ledger.At a.epoch φ') (hleads : Stage.Leads φ φ') :
    (∃ b, e.progress.find? p o = some b ∧ b.epoch = a.epoch) ∨ e.journal.under a.epoch = [] := by
  obtain ⟨stores, rfl⟩ := h'.running_of_current (current_ledger hactive)
  rcases Stage.of_leads_running hleads with rfl | ⟨earlier, rfl⟩
  · exact .inr h.course
  · have hcurrent : e.ledger.current p o = some a.epoch := (h.holder p o).2 rfl
    exact .inl (by simpa [ledger] using hcurrent)

/-- An epoch belongs to one objective of one player. -/
theorem owner_of_at (h : e.ledger.At epoch φ) :
    (∀ x ∈ e.journal.under epoch, x.player = φ.owner.1 ∧ x.objective = φ.owner.2) ∧
    ∀ q x a, e.progress.find? q x = some a → a.epoch = epoch → q = φ.owner.1 ∧ x = φ.owner.2 := by
  refine ⟨fun x hx => ?_, fun q x a hactive hepoch => ?_⟩
  · have hcourse : e.journal.under epoch = φ.course epoch := h.course
    rw [hcourse] at hx
    obtain ⟨what, -, rfl⟩ := List.mem_map.1 hx
    exact ⟨rfl, rfl⟩
  · subst hepoch
    obtain ⟨stores, rfl⟩ := h.running_of_current (current_ledger hactive)
    exact ⟨rfl, rfl⟩

/-- Nobody is active under an epoch that is closed. -/
theorem not_active_of_closed {p q : PlayerId} {o x : ObjectId} {a : Active} {stores : Nat}
    {how : Ending} (h : e.ledger.At epoch (.closed p o stores how))
    (hactive : e.progress.find? q x = some a) : a.epoch ≠ epoch := by
  intro hepoch
  subst hepoch
  obtain ⟨_, hclosed⟩ := h.running_of_current (current_ledger hactive)
  cases hclosed

/-- An epoch that is not given out yet has not been of any use. -/
theorem under_eq_nil_of_le (h : e.ledger.At epoch φ)
    (hnew : e.progress.nextEpoch ≤ epoch) : e.journal.under epoch = [] := by
  obtain rfl : φ = .unborn := h.unborn.2 hnew
  exact h.course

/-! ### New epochs -/

/-- Outside of play nothing is rewarded. -/
theorem Step.times_rewarded (h : Step mode e e') (hmode : mode ≠ .play) :
    e'.journal.times epoch .rewarded = e.journal.times epoch .rewarded := by
  cases h with
  | aside _ _ hjournal => rw [hjournal]
  | prune => rfl
  | start | store | cancel | complete => exact absurd rfl hmode
  | @drop _ p held o a =>
    have hjournal : (e.ended p held o a .dropped).journal =
      ⟨p, o, a.epoch, .ended .dropped⟩ :: e.journal := rfl
    simp [hjournal, Journal.times_cons]
  | @renew _ p held o a definition =>
    have hjournal : (e.renewed p held o a definition.goal.initial).journal =
      ⟨p, o, e.progress.nextEpoch, .entered⟩ :: ⟨p, o, a.epoch, .ended .renewed⟩ :: e.journal := rfl
    simp [hjournal, Journal.times_cons]
  | restore =>
    rw [journal_enter]
    cases e.progress.find? _ _ <;> simp [Journal.times_cons]

theorem Steps.times_rewarded (h : Steps mode e e') (hmode : mode ≠ .play) :
    e'.journal.times epoch .rewarded = e.journal.times epoch .rewarded := by
  induction h with
  | refl => rfl
  | tail _ hstep ih => exact (hstep.times_rewarded hmode).trans ih

theorem Step.nextEpoch_le (h : Step mode e e') : e.progress.nextEpoch ≤ e'.progress.nextEpoch := by
  cases h with
  | aside hprogress => exact Nat.le_of_eq (by rw [hprogress])
  | prune => simp [pruned]
  | store | cancel | complete | drop =>
    simp [stored, completed, removed, ended, persist, Engine.mark]
  | renew => simp [renewed, persist, Engine.mark, Slots.issueEpoch]
  | start =>
    exact Nat.le_of_lt (Nat.lt_of_lt_of_eq (Nat.lt_succ_self _) (e.nextEpoch_enter ..).symm)
  | restore => simp

theorem Steps.nextEpoch_le (h : Steps mode e e') :
    e.progress.nextEpoch ≤ e'.progress.nextEpoch := by
  induction h with
  | refl => exact Nat.le_refl _
  | tail _ hstep ih => exact Nat.le_trans ih hstep.nextEpoch_le

/-- Outside of play, what is active either stays as it is or begins under a new epoch. -/
theorem Step.active_or_new (h : Step mode e e') (hmode : mode ≠ .play) {p : PlayerId} {o : ObjectId}
    {a : Active} (hactive : e'.progress.find? p o = some a) :
    e.progress.find? p o = some a ∨ e.progress.nextEpoch ≤ a.epoch := by
  cases h with
  | aside hprogress => exact .inl (hprogress ▸ hactive)
  | prune => exact .inl ((e.find?_pruned ..).symm.trans hactive)
  | start | store | cancel | complete => exact absurd rfl hmode
  | drop hfind =>
    rw [e.find?_ended _ _ _ _ _ _ hfind] at hactive
    split at hactive
    · cases hactive
    · exact .inl hactive
  | renew hfind =>
    rw [e.find?_renewed _ _ _ _ _ _ hfind] at hactive
    split at hactive
    · cases hactive
      exact .inr (Nat.le_refl _)
    · exact .inl hactive
  | restore =>
    rw [find?_enter] at hactive
    split at hactive
    · cases hactive
      exact .inr (Nat.le_refl _)
    · exact .inl hactive

theorem Steps.active_or_new (h : Steps mode e e') (hmode : mode ≠ .play) {p : PlayerId}
    {o : ObjectId} {a : Active} (hactive : e'.progress.find? p o = some a) :
    e.progress.find? p o = some a ∨ e.progress.nextEpoch ≤ a.epoch := by
  induction h with
  | refl => exact .inl hactive
  | tail hsteps hstep ih =>
    rcases hstep.active_or_new hmode hactive with hbefore | hnew
    · exact ih hbefore
    · exact .inr (Nat.le_trans (Steps.nextEpoch_le hsteps) hnew)

/-- What is read back from storage stays active, under an epoch that is no older. -/
theorem Step.active_of_restore (h : Step .restore e e') {p : PlayerId} {o : ObjectId} {bound : Nat}
    (hbound : bound ≤ e.progress.nextEpoch)
    (hactive : ∃ a, e.progress.find? p o = some a ∧ bound ≤ a.epoch) :
    ∃ a, e'.progress.find? p o = some a ∧ bound ≤ a.epoch := by
  cases h with
  | aside hprogress => rwa [hprogress]
  | prune => simpa only [find?_pruned] using hactive
  | restore =>
    simp only [find?_enter]
    split
    · exact ⟨_, rfl, hbound⟩
    · exact hactive

theorem Steps.active_of_restore (h : Steps .restore e e') {p : PlayerId} {o : ObjectId}
    {bound : Nat} (hbound : bound ≤ e.progress.nextEpoch)
    (hactive : ∃ a, e.progress.find? p o = some a ∧ bound ≤ a.epoch) :
    ∃ a, e'.progress.find? p o = some a ∧ bound ≤ a.epoch := by
  induction h with
  | refl => exact hactive
  | tail hsteps hstep ih =>
    exact hstep.active_of_restore (Nat.le_trans hbound (Steps.nextEpoch_le hsteps)) ih

/-- Every record that has a definition is active after it is read back, under a new epoch. -/
theorem restored {records : List ProgressRecord} {r : ProgressRecord} {count : Nat}
    {definition : Objective} (hrun : (Objectives.restore records).run e = .ok (count, e'))
    (hr : r ∈ records) (hdefined : e.packages.get .objective r.objective = .ok definition) :
    ∃ a, e'.progress.find? r.player r.objective = some a ∧ e.progress.nextEpoch ≤ a.epoch := by
  induction records generalizing e count with
  | nil => cases hr
  | cons first rest ih =>
    obtain ⟨found, e₀, hfound, h⟩ := Act.exists_of_run_bind hrun
    obtain ⟨hget, he₀⟩ := Act.objective_run hfound
    subst he₀
    cases found with
    | error err =>
      rcases List.mem_cons.1 hr with rfl | hr
      · cases hget.trans hdefined
      · exact ih h hr hdefined
    | ok d =>
      obtain ⟨_, e₁, henter, h⟩ := Act.exists_of_run_bind h
      obtain ⟨k, e₂, hrest, h⟩ := Act.exists_of_run_bind h
      cases h
      have hsteps : Steps .restore e₁ e' := Objectives.restore_stepwise rest e₁ k e' hrest
      have hentered : Steps .restore e₀ e₁ := by
        cases henter
        exact .single (.restore hget.symm (Objectives.readable_or_initial d.goal first.data) _)
      have hnext := Steps.nextEpoch_le hentered
      rcases List.mem_cons.1 hr with rfl | hr
      · -- A later record of the same objective may enter it again, but not under an older epoch.
        refine hsteps.active_of_restore hnext ?_
        cases henter
        exact ⟨_, by rw [find?_enter, if_pos ⟨rfl, rfl⟩], Nat.le_refl _⟩
      · have hdefined' := (Steps.packages_eq hentered) ▸ hdefined
        obtain ⟨a, hactive, hnew⟩ := ih hrest hr hdefined'
        exact ⟨a, hactive, Nat.le_trans hnext hnew⟩

end Engine

end Questbook
