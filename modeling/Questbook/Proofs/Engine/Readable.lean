/-
Questbook/Proofs/Engine/Readable.lean

Active progress can be read by the packages in force.

What is active of an objective fits packages if they define the objective and its goal can read the
progress.  Play keeps this up, since goals that are lawful can read what they come to; so does what
is read back, which begins anew where it cannot be read.  A reload establishes it: it looks at every
active objective in the slot that it has found, and drops it, begins it anew or finds that it fits,
and none of its other steps undoes that.

Main result: `readable_of_performAll`, for every run that puts lawful packages in force.
-/
import Mathlib.Data.List.Induction
import Questbook.Proofs.Engine.Perform

namespace Questbook

namespace Slots

variable {s : Slots} {p q : PlayerId} {held : Nat}

/-- The slot of a player, if there is one, is the held one. -/
def HeldBy (s : Slots) (p : PlayerId) (held : Nat) : Prop :=
  ∀ slot, s.slots.find? p = some slot → slot.number = held

/-- Every slot there is, is the one that its player has. -/
theorem heldBy_of_mem_entries (s : Slots) {slot : PlayerId × Nat}
    (h : slot ∈ s.slots.entries.map fun slot => (slot.1, slot.2.number)) :
    HeldBy s slot.1 slot.2 := by
  intro other hother
  obtain ⟨entry, hentry, rfl⟩ := List.mem_map.1 h
  rw [Table.find?_of_mem_entries hentry] at hother
  cases hother
  rfl

theorem HeldBy.find?_eq (h : HeldBy s p held) (o : ObjectId) :
    s.find? p o = s.findIn? p held o := by
  unfold find? findIn? activeOf activeIn
  cases hslot : s.slots.find? p with
  | none => rfl
  | some slot => simp [h slot hslot]

theorem HeldBy.changeIn (h : HeldBy s q held) (p : PlayerId) (number : Nat)
    (f : Table ObjectId Active → Table ObjectId Active) :
    HeldBy (s.changeIn p number f) q held := by
  intro slot hslot
  rw [slot_changeIn] at hslot
  split at hslot
  · rename_i hp
    obtain ⟨before, hbefore, rfl⟩ := Option.map_eq_some_iff.1 hslot
    have hnumber := h before (hp ▸ hbefore)
    split <;> exact hnumber
  · exact h slot hslot

theorem HeldBy.prune (h : HeldBy s q held) (p : PlayerId) (number : Nat) :
    HeldBy (s.prune p number) q held := by
  intro slot hslot
  rw [slot_prune] at hslot
  split at hslot
  · rename_i hp
    exact h slot (hp ▸ (Option.filter_eq_some_iff.1 hslot).1)
  · exact h slot hslot

end Slots

namespace Engine

variable {mode : Mode} {K : Packages} {e e' : Engine} {p q : PlayerId} {o x : ObjectId}

/-- What is active of an objective of a player is defined by packages, and its goal can read it. -/
def Fits (K : Packages) (e : Engine) (p : PlayerId) (o : ObjectId) : Prop :=
  ∀ a, e.progress.find? p o = some a → ∃ definition : Objective,
    K.get .objective o = .ok definition ∧ definition.goal.accepts a.data = true

/-- All that is active fits the packages in force. -/
def Readable (e : Engine) : Prop := ∀ p o, e.Fits e.packages p o

/-- A change of one objective that leaves it as something that fits, if it is active still. -/
theorem Fits.of_set {now : Option Active} (h : e.Fits K q x)
    (hset : ∀ q x, e'.progress.find? q x = if p = q ∧ o = x then now else e.progress.find? q x)
    (hnow : ∀ a, now = some a → ∃ definition : Objective,
      K.get .objective o = .ok definition ∧ definition.goal.accepts a.data = true) :
    e'.Fits K q x := by
  intro a ha
  rw [hset] at ha
  by_cases hkey : p = q ∧ o = x
  · rw [if_pos hkey] at ha
    exact hkey.2 ▸ hnow a ha
  · rw [if_neg hkey] at ha
    exact h a ha

theorem Fits.pruned (h : e.Fits K q x) (p : PlayerId) (held : Nat) :
    (e.pruned p held).Fits K q x :=
  fun a ha => h a (e.find?_pruned p q held x ▸ ha)

theorem Fits.of_ended {held : Nat} {active : Active} (h : e.Fits K q x) (how : Ending)
    (hactive : e.progress.findIn? p held o = some active) :
    (e.ended p held o active how).Fits K q x := by
  intro a ha
  rw [find?_ended _ _ _ _ _ _ _ hactive] at ha
  split at ha
  · cases ha
  · exact h a ha

/-! ### Play -/

theorem fits_keptByProgress (hlawful : K.Lawful) :
    KeptByProgress K fun (_ : Unit) e => e.packages = K ∧ ∀ q x, e.Fits K q x where
  aside he h := ⟨h.packages.trans he.1, fun q x => by
    unfold Fits
    rw [h.progress]
    exact he.2 q x⟩
  packages he := he.1
  start {_ e p id definition} he hdefined hinactive := by
    have hpackages : (e.begun p id definition.goal.initial).packages = e.packages :=
      Step.packages_eq (.start (he.1 ▸ hdefined) hinactive)
    refine ⟨hpackages.trans he.1, fun q x => (he.2 q x).of_set
      (fun q x => e.find?_enter p q id x _ e.clock) fun a ha => ?_⟩
    cases ha
    exact ⟨definition, hdefined, (hlawful _ _ hdefined).accepts_initial⟩
  store {_ e p held id active definition data} he hactive hdefined hmade := by
    refine ⟨he.1, fun q x => (he.2 q x).of_set
      (fun q x => e.find?_stored p q held id x data active.epoch hactive) fun a ha => ?_⟩
    cases ha
    exact ⟨definition, hdefined, (hlawful _ _ hdefined).accepts_of_made hmade⟩
  cancel {_ e p held id active} he hactive :=
    ⟨he.1, fun q x => ((he.2 q x).of_ended .cancelled hactive).pruned p held⟩
  complete {_ e p held id active} he hactive :=
    ⟨(), ⟨he.1, fun q x => (he.2 q x).of_ended .completed hactive⟩,
      fun _ he => ⟨he.1, fun q x => (he.2 q x).pruned p held⟩⟩
  prune p held he := ⟨he.1, fun q x => (he.2 q x).pruned p held⟩

/-! ### Reload and storage -/

/-- What fits goes on to fit through a reload and through what is read back. -/
theorem Step.fits (h : Step mode e e') (hmode : mode ≠ .play) (hlawful : e.packages.Lawful)
    (hfits : e.Fits e.packages q x) : e'.Fits e.packages q x := by
  cases h with
  | aside hprogress =>
    unfold Fits
    rw [hprogress]
    exact hfits
  | prune => exact hfits.pruned _ _
  | drop hactive => exact hfits.of_ended .dropped hactive
  | @renew _ p held id active definition hactive hdefined =>
    refine hfits.of_set (fun q x => e.find?_renewed p q held id x _ hactive) fun a ha => ?_
    cases ha
    exact ⟨definition, hdefined, (hlawful _ _ hdefined).accepts_initial⟩
  | @restore _ p id definition data hdefined hreadable startedAt =>
    refine hfits.of_set (fun q x => e.find?_enter p q id x data startedAt) fun a ha => ?_
    cases ha
    refine ⟨definition, hdefined, ?_⟩
    rcases hreadable with hreadable | rfl
    · exact hreadable
    · exact (hlawful _ _ hdefined).accepts_initial
  | start | store | cancel | complete => exact absurd rfl hmode

theorem Steps.fits (h : Steps mode e e') (hmode : mode ≠ .play) (hlawful : e.packages.Lawful)
    (hfits : e.Fits e.packages q x) : e'.Fits e.packages q x := by
  induction h with
  | refl => exact hfits
  | tail hsteps hstep ih =>
    rw [← Steps.packages_eq hsteps] at hlawful ih ⊢
    exact hstep.fits hmode hlawful ih

/-! ### A reload reaches everything -/

/-- A reload opens no slots. -/
theorem Steps.heldBy {held : Nat} (h : Steps .reload e e') (hheld : e.progress.HeldBy q held) :
    e'.progress.HeldBy q held := by
  induction h with
  | refl => exact hheld
  | tail _ hstep ih =>
    cases hstep with
    | aside hprogress => rwa [hprogress]
    | prune => exact ih.prune _ _
    | drop => exact ih.changeIn _ _ _
    | renew => exact Slots.HeldBy.changeIn (s := (Slots.issueEpoch _).2) ih _ _ _

open Objectives

/-- An objective of a held slot fits after it was looked at. -/
theorem fits_refit {held : Nat} (hlawful : K.Lawful) (hheld : e.progress.HeldBy p held)
    (hrun : (refit K p held o).run e = .ok ((), e')) : e'.Fits K p o := by
  refine Act.Ensures.of_run (H := fun _ => True) (R := fun _ e' => e'.Fits K p o) ?_ hrun
  refine Act.ensures_get_bind ?_
  have hfind := hheld.find?_eq o
  split
  · rename_i hinactive
    intro a ha
    rw [hfind, hinactive] at ha
    cases ha
  · rename_i active hactive
    split
    · intro a ha
      rw [show _ = _ from e.find?_ended p p held o o .dropped hactive] at ha
      simp at ha
    · rename_i definition hdefined
      split
      · rename_i hreadable
        intro a ha
        rw [hfind, hactive] at ha
        cases ha
        exact ⟨definition, hdefined, hreadable⟩
      · intro a ha
        rw [show _ = _ from e.find?_renewed p p held o o _ hactive, if_pos ⟨rfl, rfl⟩] at ha
        cases ha
        exact ⟨definition, hdefined, (hlawful _ _ hdefined).accepts_initial⟩

/-- What is active of a player fits after his slot was gone through. -/
theorem fits_refitEach {held : Nat} {ids : List ObjectId} (hlawful : e.packages.Lawful)
    (hheld : e.progress.HeldBy p held)
    (hids : ∀ o, o ∉ ids → e.Fits e.packages p o)
    (hrun : (refitEach e.packages p held ids).run e = .ok ((), e')) (o : ObjectId) :
    e'.Fits e.packages p o := by
  induction ids generalizing e with
  | nil =>
    cases hrun
    exact hids o nofun
  | cons id rest ih =>
    obtain ⟨_, e₁, hfirst, hrest⟩ := Act.exists_of_run_bind hrun
    have hsteps : Steps .reload e e₁ :=
      (refit_keeps (H := fun _ => True) (steps_keptByReload e _) held id).of_run .refl hfirst
    have hpackages := Steps.packages_eq hsteps
    rw [← hpackages] at hrest ⊢
    refine ih (hpackages ▸ hlawful) (Steps.heldBy hsteps hheld) (fun x hx => ?_) hrest
    rw [hpackages]
    by_cases hid : x = id
    · subst hid
      exact fits_refit hlawful hheld hfirst
    · exact Steps.fits hsteps nofun hlawful (hids x (by simp [hid, hx]))

/-- All that is active fits after the slots of all players were gone through. -/
theorem fits_refitSlots {slots : List (PlayerId × Nat)} (hlawful : e.packages.Lawful)
    (hheld : ∀ s ∈ slots, e.progress.HeldBy s.1 s.2)
    (hslots : ∀ p, p ∉ slots.map Prod.fst → ∀ o, e.Fits e.packages p o)
    (hrun : (refitSlots e.packages slots).run e = .ok ((), e')) (p : PlayerId) (o : ObjectId) :
    e'.Fits e.packages p o := by
  induction slots generalizing e with
  | nil =>
    cases hrun
    exact hslots p nofun o
  | cons s rest ih =>
    obtain ⟨q, held⟩ := s
    rw [List.forall_mem_cons] at hheld
    have hq : ∀ x, x ∉ (e.progress.activeIn q held).keys → e.Fits e.packages q x := by
      intro x hx a ha
      rw [hheld.1.find?_eq] at ha
      exact absurd (Table.mem_keys_of_find? ha) hx
    obtain ⟨found, e₀, hfound, hrun⟩ := Act.exists_of_run_bind hrun
    cases hfound
    obtain ⟨_, e₁, heach, hrest⟩ := Act.exists_of_run_bind hrun
    have hsteps₁ : Steps .reload e e₁ :=
      (refitEach_keeps (H := fun _ => True) (steps_keptByReload e _) held _).of_run .refl heach
    obtain ⟨_, e₂, hprune, hrest⟩ := Act.exists_of_run_bind hrest
    have hsteps : Steps .reload e e₂ := by
      cases hprune
      exact hsteps₁.tail (.prune _ _ _)
    have hpackages := Steps.packages_eq hsteps
    rw [← hpackages] at hrest ⊢
    refine ih (hpackages ▸ hlawful) (fun s hs => Steps.heldBy hsteps (hheld.2 s hs))
      (fun p' hp' x => ?_) hrest
    rw [hpackages]
    by_cases hp : p' = q
    · subst hp
      cases hprune
      exact (fits_refitEach hlawful hheld.1 hq heach x).pruned _ _
    · exact Steps.fits hsteps nofun hlawful (hslots p' (by simp [hp, hp']) x)

/-- All that is active fits after a reload. -/
theorem readable_of_reload {packages : Packages} {levels : Nat} (hlawful : packages.Lawful)
    (hrun : e.perform levels (.replacePackages packages) = .ok ((), e')) :
    e'.packages = packages ∧ e'.Readable := by
  have hpackages : e'.packages = packages := Steps.packages_eq (perform_steps hrun)
  refine ⟨hpackages, fun p o => ?_⟩
  rw [hpackages]
  let s : Engine := { e with packages }
  have hslots : ∀ q, q ∉ (e.progress.slots.entries.map fun slot => (slot.1, slot.2.number)).map
      Prod.fst → ∀ x, s.Fits packages q x := by
    intro q hq x a ha
    refine absurd ?_ hq
    rw [List.map_map]
    exact e.progress.mem_keys_of_find? q x ha
  exact fits_refitSlots (e := s) hlawful (fun _ => e.progress.heldBy_of_mem_entries) hslots hrun p o

/-! ### Runs -/

variable {levels : Nat} {cs : List Command} {e₀ : Engine}

/-- **Active progress can be read.**  Where all packages that are put in force are lawful, the goals
of what is active are defined at any time and can read their progress. -/
theorem readable_of_performAll (hlawful : ∀ packages, .replacePackages packages ∈ cs →
    packages.Lawful) (hrun : performAll levels cs e₀ = .ok e) (hlawful₀ : e₀.packages.Lawful)
    (hreadable₀ : e₀.Readable) : e.packages.Lawful ∧ e.Readable := by
  induction cs using List.reverseRecOn generalizing e with
  | nil =>
    cases hrun
    exact ⟨hlawful₀, hreadable₀⟩
  | append_singleton cs c ih =>
    obtain ⟨e₁, answer, hbefore, hlast⟩ := performAll_concat hrun
    obtain ⟨hlawful₁, hreadable₁⟩ :=
      ih (fun packages h => hlawful packages (List.mem_append_left _ h)) hbefore
    rcases c.mode_cases with ⟨records, rfl⟩ | ⟨packages, rfl⟩ | ⟨hmode, hsetting⟩
    · have hsteps : Steps .restore e₁ e := perform_steps hlast
      have hpackages := Steps.packages_eq hsteps
      refine ⟨hpackages ▸ hlawful₁, fun p o => ?_⟩
      rw [hpackages]
      exact Steps.fits hsteps nofun hlawful₁ (hreadable₁ p o)
    · have hnew := hlawful packages (List.mem_append_right _ List.mem_cons_self)
      obtain ⟨hpackages, hreadable⟩ := readable_of_reload hnew hlast
      exact ⟨hpackages ▸ hnew, hreadable⟩
    · have hkeeps := (fits_keptByProgress hlawful₁).perform_keeps levels () c
        (fun records hc => by subst hc; cases hmode) fun packages hc => by subst hc; cases hmode
      obtain ⟨hpackages, hfits⟩ := hkeeps.of_run ⟨rfl, hreadable₁⟩ hlast
      exact ⟨hpackages ▸ hlawful₁, fun p o => hpackages ▸ hfits p o⟩

theorem readable_fresh (registry : Registry) (integrations : Integrations) (world : World)
    (archived : Bool) (screen : String) (clock : Calendar.Timestamp) (dice : Dice) :
    (fresh registry integrations world archived screen clock dice).Readable := by
  intro p o active h
  cases h

theorem lawful_wolves : wolves.Lawful := by
  intro id definition h
  have hmem : (id, definition) ∈ [((⟨"forest", "wolves"⟩ : ObjectId),
      (⟨⟨"forest", "wolves"⟩, .kill ["wolf"] 3, [], []⟩ : Objective))] :=
    Table.mem_entries_of_find? (Packages.find?_of_get h)
  cases List.mem_singleton.1 hmem
  exact show 3 ≤ Decimal.maxUnsigned32 by decide

end Engine

end Questbook
