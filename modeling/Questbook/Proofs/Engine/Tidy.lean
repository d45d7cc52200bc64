/-
Questbook/Proofs/Engine/Tidy.lean

A player has a slot as long as something of his is active.

Whoever may leave a slot empty holds it, and closes it before he is done.  While completion events
are fired the slot of the completed objective may be empty, and completions nest: the empty slots
there are at any time are among those that are held.

Main result: `tidy_of_performAll`.  After a command no slot is empty.
-/
import Mathlib.Data.List.Induction
import Questbook.Proofs.Engine.Perform

namespace Questbook

namespace Slots

variable {s : Slots} {p : PlayerId} {held : Nat} {S S' : Set (PlayerId × Nat)}

/-- No slot is empty but those of `S`. -/
def EmptyIn (S : Set (PlayerId × Nat)) (s : Slots) : Prop :=
  ∀ p slot, s.slots.find? p = some slot → slot.active.isEmpty = true → (p, slot.number) ∈ S

/-- No slot is empty. -/
abbrev Tidy : Slots → Prop := EmptyIn ∅

theorem tidy_empty : Tidy Slots.empty := fun _ _ h _ => by cases h

theorem EmptyIn.mono (h : EmptyIn S s) (hS : S ⊆ S') : EmptyIn S' s :=
  fun p slot hslot hempty => hS (h p slot hslot hempty)

/-- The only slot of a player that may be empty is the one that he has. -/
theorem emptyIn_of_held? (h : s.held? p = some held) :
    EmptyIn { x | x.1 = p → x.2 = held } s := by
  rintro q slot hslot - rfl
  rw [held?, hslot] at h
  exact Option.some.inj h

theorem EmptyIn.put (h : EmptyIn S s) (p : PlayerId) (o : ObjectId) (a : Active) :
    EmptyIn S (s.put p o a) := by
  intro q slot hslot hempty
  rw [slot_put] at hslot
  split at hslot
  · cases hslot
    simp at hempty
  · exact h q slot hslot hempty

/-- A change of a slot leaves no other slot empty. -/
theorem EmptyIn.changeIn (h : EmptyIn S s) (p : PlayerId) (held : Nat)
    (f : Table ObjectId Active → Table ObjectId Active) :
    EmptyIn (insert (p, held) S) (s.changeIn p held f) := by
  intro q slot hslot hempty
  rw [slot_changeIn] at hslot
  split at hslot
  · rename_i hp
    subst hp
    obtain ⟨before, hbefore, rfl⟩ := Option.map_eq_some_iff.1 hslot
    by_cases hheld : before.number = held
    · simp [hheld]
    · rw [if_neg hheld] at hempty ⊢
      exact .inr (h _ before hbefore hempty)
  · exact .inr (h q slot hslot hempty)

theorem EmptyIn.changeIn_insert (h : EmptyIn S s) (p : PlayerId) (held : Nat) (o : ObjectId)
    (a : Active) : EmptyIn S (s.changeIn p held (·.insert o a)) := by
  intro q slot hslot hempty
  rw [slot_changeIn] at hslot
  split at hslot
  · rename_i hp
    subst hp
    obtain ⟨before, hbefore, rfl⟩ := Option.map_eq_some_iff.1 hslot
    by_cases hheld : before.number = held
    · simp [hheld] at hempty
    · rw [if_neg hheld] at hempty ⊢
      exact h _ before hbefore hempty
  · exact h q slot hslot hempty

/-- A held slot is not left empty. -/
theorem EmptyIn.prune (h : EmptyIn (insert (p, held) S) s) : EmptyIn S (s.prune p held) := by
  intro q slot hslot hempty
  rw [slot_prune] at hslot
  split at hslot
  · rename_i hp
    subst hp
    obtain ⟨hbefore, hkept⟩ := Option.filter_eq_some_iff.1 hslot
    rcases h _ slot hbefore hempty with heq | hS
    · obtain rfl := (Prod.ext_iff.1 heq).2
      simp [hempty] at hkept
    · exact hS
  · rename_i hp
    rcases h q slot hslot hempty with heq | hS
    · exact absurd (Prod.ext_iff.1 heq).1.symm hp
    · exact hS

end Slots

namespace Engine

open Slots

variable {K : Packages} {e e' e₀ : Engine} {p : PlayerId} {S : Set (PlayerId × Nat)}
  {H : Halt → Prop}

theorem emptyIn_enter (h : e.progress.EmptyIn S) (p : PlayerId) (o : ObjectId) (data : Json)
    (startedAt : Calendar.Timestamp) : (e.enter p o data startedAt).2.progress.EmptyIn S :=
  EmptyIn.put (s := e.progress.issueEpoch.2) h p o _

/-! ### Play -/

/-- Completion adds the slot it holds to those that may be empty, and takes it out again. -/
theorem emptyIn_keptByProgress (K : Packages) :
    KeptByProgress K fun S e => e.packages = K ∧ e.progress.EmptyIn S where
  aside he h := ⟨h.packages.trans he.1, h.progress ▸ he.2⟩
  packages he := he.1
  start he hdefined hinactive :=
    ⟨(Step.packages_eq (.start (he.1 ▸ hdefined) hinactive)).trans he.1, emptyIn_enter he.2 _ _ _ _⟩
  store he _ _ _ := ⟨he.1, he.2.changeIn_insert _ _ _ _⟩
  cancel he _ := ⟨he.1, (he.2.changeIn _ _ _).prune⟩
  complete he _ := ⟨_, ⟨he.1, he.2.changeIn _ _ _⟩, fun _ he => ⟨he.1, he.2.prune⟩⟩
  prune _ _ he := ⟨he.1, (he.2.mono (Set.subset_insert _ _)).prune⟩

/-! ### Reload and storage -/

open Objectives

/-- Fitting an objective to new packages leaves no slot empty but its own. -/
theorem refit_keeps_emptyIn {held : Nat} (hp : (p, held) ∈ S) (id : ObjectId) :
    (refit K p held id).Keeps (·.progress.EmptyIn S) H := by
  refine Act.keeps_get_bind fun e he => ?_
  split
  · exact he
  · split
    · exact Set.insert_eq_of_mem hp ▸ he.changeIn p held _
    · split
      · exact he
      · exact EmptyIn.changeIn_insert (s := e.progress.issueEpoch.2) he p held _ _

theorem refitEach_keeps_emptyIn {held : Nat} (hp : (p, held) ∈ S) (ids : List ObjectId) :
    (refitEach K p held ids).Keeps (·.progress.EmptyIn S) H := by
  induction ids with
  | nil => exact Act.keeps_pure _
  | cons id rest ih => exact Act.keeps_bind (refit_keeps_emptyIn hp id) fun _ => ih

theorem refitSlots_keeps_emptyIn (slots : List (PlayerId × Nat)) :
    (refitSlots K slots).Keeps (·.progress.EmptyIn S) H := by
  induction slots with
  | nil => exact Act.keeps_pure _
  | cons slot rest ih =>
    refine Act.keeps_get_bind fun e he => ?_
    have hwider : e.progress.EmptyIn (insert slot S) := he.mono (Set.subset_insert _ _)
    refine Act.ensures_bind (refitEach_keeps_emptyIn (Set.mem_insert _ _) _ e hwider)
      fun _ e₁ _ he₁ => ?_
    exact Act.ensures_bind (R := fun _ e => e.progress.EmptyIn S) he₁.prune fun _ e₂ _ => ih e₂

/-! ### Runs -/

theorem perform_tidy {levels : Nat} {c : Command} {answer : c.Answer} (he : e.progress.Tidy)
    (h : e.perform levels c = .ok (answer, e')) : e'.progress.Tidy := by
  rcases c.mode_cases with ⟨records, rfl⟩ | ⟨packages, rfl⟩ | ⟨hmode, -⟩
  · have hkeeps : (restore records).Keeps (·.progress.Tidy) fun _ => True :=
      restore_keeps (P := (·.progress.Tidy)) (fun _ _ he _ _ => emptyIn_enter he _ _ _ _) records
    exact hkeeps.of_run he h
  · have hkeeps : (reconcile packages).Keeps (·.progress.Tidy) fun _ => True :=
      Act.keeps_bind Act.keeps_get fun _ => refitSlots_keeps_emptyIn _
    exact hkeeps.of_run (e := { e with packages }) he h
  · have hkeeps := (emptyIn_keptByProgress e.packages).perform_keeps levels ∅ c
      (fun records hc => by subst hc; cases hmode) fun packages hc => by subst hc; cases hmode
    exact (hkeeps.of_run ⟨rfl, he⟩ h).2

/-- **No slot is left empty.**  Whoever has a slot after a run has something active, as long as that
was so before it. -/
theorem tidy_of_performAll {levels : Nat} {cs : List Command} (he₀ : e₀.progress.Tidy)
    (hrun : performAll levels cs e₀ = .ok e) : e.progress.Tidy := by
  induction cs using List.reverseRecOn generalizing e with
  | nil =>
    cases hrun
    exact he₀
  | append_singleton cs c ih =>
    obtain ⟨e₁, answer, hbefore, hlast⟩ := performAll_concat hrun
    exact perform_tidy (ih hbefore) hlast

end Engine

end Questbook
