/-
Questbook/Proofs/Engine/Reload.lean

A reload fits what is active to new packages, and a second one finds nothing to do.

The slots are gone through one after another, and in each of them the objectives that are active
there.  So each entry is looked at once: one that has no definition goes, one that its definition
cannot read begins anew, and all others stay as they are.  `Fitted` is what holds while this goes
on, given the keys that have been looked at:

    Fitted K s visited e  →  (refit K p held o).run e = .ok ((), e')
      →  Fitted K s ((p, o) :: visited) e'.

Nothing else of the engine is read or written.  A reload does nothing at all just where all that is
active fits the packages (`reload_eq_iff`), and after the first reload of them it does, unless a
goal cannot read what it begins with.

Main result: `reconciled_by_reload`.
-/
import Questbook.Proofs.Engine.Completion
import Questbook.Proofs.Engine.Endings
import Questbook.Proofs.Engine.Pruning
import Questbook.Proofs.Engine.Readable
import Questbook.Proofs.Engine.Tidy
import Questbook.Proofs.Package.Vocabulary

namespace Questbook

namespace Slots

variable {K : Packages} {s : Slots} {k : ProgressKey} {r : ProgressRecord} {now : Option Active}
  {a : Active} {definition : Objective}

/-! ### One entry -/

/-- The record with which an objective begins anew, if packages define it but cannot read its
progress. -/
def renewal? (K : Packages) (s : Slots) (k : ProgressKey) : Option ProgressRecord :=
  match s.find? k.1 k.2, K.get .objective k.2 with
  | some a, .ok definition =>
    if definition.goal.accepts a.data then none
    else some ⟨k.1, k.2, definition.goal.initial, a.startedAt⟩
  | _, _ => none

theorem renewal?_eq_some_iff : renewal? K s k = some r ↔
    ∃ (a : Active) (definition : Objective), s.find? k.1 k.2 = some a ∧
      K.get .objective k.2 = .ok definition ∧ definition.goal.accepts a.data = false ∧
      r = ⟨k.1, k.2, definition.goal.initial, a.startedAt⟩ := by
  unfold renewal?
  constructor
  · intro h
    split at h
    · rename_i a definition hactive hdefined
      split at h
      · cases h
      · rename_i hrefuses
        cases h
        exact ⟨a, definition, hactive, hdefined, Bool.eq_false_iff.2 hrefuses, rfl⟩
    · cases h
  · rintro ⟨a, definition, hactive, hdefined, hrefuses, rfl⟩
    simp only [hactive, hdefined, hrefuses]
    rfl

theorem renewal?_eq_none_iff : renewal? K s k = none ↔
    ∀ (a : Active) (definition : Objective), s.find? k.1 k.2 = some a →
      K.get .objective k.2 = .ok definition → definition.goal.accepts a.data = true := by
  refine ⟨fun h a definition hactive hdefined => ?_, fun h => ?_⟩
  · by_contra hrefuses
    cases h.symm.trans (renewal?_eq_some_iff.2
      ⟨a, definition, hactive, hdefined, Bool.eq_false_iff.2 hrefuses, rfl⟩)
  · refine Option.eq_none_iff_forall_ne_some.2 fun r hr => ?_
    obtain ⟨a, definition, hactive, hdefined, hrefuses, -⟩ := renewal?_eq_some_iff.1 hr
    cases hrefuses.symm.trans (h a definition hactive hdefined)

theorem key_of_renewal? (h : renewal? K s k = some r) : r.key = k := by
  obtain ⟨a, definition, -, -, -, rfl⟩ := renewal?_eq_some_iff.1 h
  rfl

/-- What packages make of an entry: it goes, it stays exactly as it is, or it gets the initial data
of its definition and a new epoch, and keeps the time at which it was started. -/
inductive Becomes (K : Packages) (s : Slots) (k : ProgressKey) : Option Active → Prop
  | inactive (hinactive : s.find? k.1 k.2 = none) : Becomes K s k none
  | dropped {a : Active} {err : NotFound} (hactive : s.find? k.1 k.2 = some a)
      (hundefined : K.get .objective k.2 = .error err) : Becomes K s k none
  | kept {a : Active} {definition : Objective} (hactive : s.find? k.1 k.2 = some a)
      (hdefined : K.get .objective k.2 = .ok definition)
      (haccepts : definition.goal.accepts a.data = true) : Becomes K s k (some a)
  | renewed {a : Active} {definition : Objective} {epoch : Nat}
      (hactive : s.find? k.1 k.2 = some a) (hdefined : K.get .objective k.2 = .ok definition)
      (hrefuses : definition.goal.accepts a.data = false) (hnew : s.nextEpoch ≤ epoch) :
      Becomes K s k (some ⟨definition.goal.initial, epoch, a.startedAt⟩)

theorem Becomes.eq_none {err : NotFound} (h : Becomes K s k now)
    (hundefined : K.get .objective k.2 = .error err) : now = none := by
  cases h with
  | inactive | dropped => rfl
  | kept _ hdefined | renewed _ hdefined => cases hundefined.symm.trans hdefined

theorem Becomes.exists_definition (h : Becomes K s k (some a)) :
    ∃ definition, K.get .objective k.2 = .ok definition := by
  cases h with
  | kept _ hdefined | renewed _ hdefined => exact ⟨_, hdefined⟩

theorem Becomes.eq_some (h : Becomes K s k now) (hactive : s.find? k.1 k.2 = some a)
    (hdefined : K.get .objective k.2 = .ok definition)
    (haccepts : definition.goal.accepts a.data = true) : now = some a := by
  cases h with
  | inactive hinactive => cases hinactive.symm.trans hactive
  | dropped _ hundefined => cases hundefined.symm.trans hdefined
  | kept hactive' => exact hactive'.symm.trans hactive
  | renewed hactive' hdefined' hrefuses =>
    cases hactive'.symm.trans hactive
    cases hdefined'.symm.trans hdefined
    cases hrefuses.symm.trans haccepts

theorem Becomes.exists_epoch (h : Becomes K s k now) (hactive : s.find? k.1 k.2 = some a)
    (hdefined : K.get .objective k.2 = .ok definition)
    (hrefuses : definition.goal.accepts a.data = false) :
    ∃ epoch, s.nextEpoch ≤ epoch ∧ now = some ⟨definition.goal.initial, epoch, a.startedAt⟩ := by
  cases h with
  | inactive hinactive => cases hinactive.symm.trans hactive
  | dropped _ hundefined => cases hundefined.symm.trans hdefined
  | kept hactive' hdefined' haccepts =>
    cases hactive'.symm.trans hactive
    cases hdefined'.symm.trans hdefined
    cases hrefuses.symm.trans haccepts
  | renewed hactive' hdefined' _ hnew =>
    cases hactive'.symm.trans hactive
    cases hdefined'.symm.trans hdefined
    exact ⟨_, hnew, rfl⟩

end Slots

namespace Engine

open Slots

variable {K : Packages} {s e e' : Engine} {p q : PlayerId} {o x : ObjectId} {held : Nat}
  {visited : List ProgressKey} {k : ProgressKey} {r : ProgressRecord}

/-- While entries are fitted to packages: those that have been looked at, latest first, are as the
packages make them, and all others are as they were. -/
structure Fitted (K : Packages) (s : Engine) (visited : List ProgressKey) (e : Engine) : Prop where
  rest : e = { s with progress := e.progress, outbox := e.outbox, journal := e.journal }
  nodup : visited.Nodup
  heldBy : ∀ q held, s.progress.HeldBy q held → e.progress.HeldBy q held
  nextEpoch : s.progress.nextEpoch ≤ e.progress.nextEpoch
  outbox : e.outbox = s.outbox.map ((visited.filterMap (renewal? K s.progress)).map .upsert ++ ·)
  entry : ∀ k ∈ visited, Becomes K s.progress k (e.progress.find? k.1 k.2)
  other : ∀ k ∉ visited, e.progress.find? k.1 k.2 = s.progress.find? k.1 k.2

theorem Fitted.init : Fitted K s [] s where
  rest := rfl
  nodup := .nil
  heldBy _ _ h := h
  nextEpoch := Nat.le_refl _
  outbox := by simp
  entry := nofun
  other _ _ := rfl

/-- One more entry is looked at. -/
theorem Fitted.visit (h : Fitted K s visited e) (hnew : (p, o) ∉ visited) {now : Option Active}
    (hrest : e' = { e with progress := e'.progress, outbox := e'.outbox, journal := e'.journal })
    (hheld : ∀ q held, e.progress.HeldBy q held → e'.progress.HeldBy q held)
    (hnext : e.progress.nextEpoch ≤ e'.progress.nextEpoch)
    (houtbox : e'.outbox = e.outbox.map ((renewal? K s.progress (p, o)).toList.map .upsert ++ ·))
    (hfind : ∀ q x,
      e'.progress.find? q x = if p = q ∧ o = x then now else e.progress.find? q x)
    (hnow : Becomes K s.progress (p, o) now) : Fitted K s ((p, o) :: visited) e' where
  rest := by rw [hrest, h.rest]
  nodup := List.nodup_cons.2 ⟨hnew, h.nodup⟩
  heldBy q held hq := hheld q held (h.heldBy q held hq)
  nextEpoch := Nat.le_trans h.nextEpoch hnext
  outbox := by
    rw [houtbox, h.outbox, Option.map_map]
    congr 1
    funext ops
    cases hrenewal : renewal? K s.progress (p, o) <;> simp [hrenewal]
  entry k hk := by
    rw [hfind]
    split
    · rename_i hkey
      obtain rfl : (p, o) = k := Prod.ext hkey.1 hkey.2
      exact hnow
    · rename_i hkey
      refine h.entry k ((List.mem_cons.1 hk).resolve_left fun heq => hkey ?_)
      rw [heq]
      exact ⟨rfl, rfl⟩
  other k hk := by
    rw [List.mem_cons, not_or] at hk
    rw [hfind, if_neg fun hkey => hk.1 (Prod.ext hkey.1.symm hkey.2.symm), h.other k hk.2]

/-- An entry is looked at that stays as it is. -/
theorem Fitted.leave (h : Fitted K s visited e) (hnew : (p, o) ∉ visited)
    (hrenewal : renewal? K s.progress (p, o) = none)
    (hnow : Becomes K s.progress (p, o) (s.progress.find? p o)) :
    Fitted K s ((p, o) :: visited) e := by
  refine h.visit hnew rfl (fun _ _ hq => hq) (Nat.le_refl _) (by simp [hrenewal]) (fun q x => ?_)
    hnow
  split
  · rename_i hkey
    obtain ⟨rfl, rfl⟩ := hkey
    exact h.other (p, o) hnew
  · rfl

open Objectives

/-- **An entry is fitted to packages.** -/
theorem Fitted.refit (h : Fitted K s visited e) (hnew : (p, o) ∉ visited)
    (hheld : s.progress.HeldBy p held) :
    ∃ e', (refit K p held o).run e = .ok ((), e') ∧ Fitted K s ((p, o) :: visited) e' := by
  -- The slot is the one that was found beforehand, and the entry is as it was at first.
  have hfound : e.progress.findIn? p held o = s.progress.find? p o :=
    ((h.heldBy p held hheld).find?_eq o).symm.trans (h.other (p, o) hnew)
  rw [Objectives.refit, Act.run_get_bind, hfound]
  cases hactive : s.progress.find? p o with
  | none =>
    have hrenewal : renewal? K s.progress (p, o) = none :=
      renewal?_eq_none_iff.2 fun a _ ha => by cases hactive.symm.trans ha
    exact ⟨e, rfl, h.leave hnew hrenewal (hactive ▸ .inactive hactive)⟩
  | some a =>
    rw [hactive] at hfound
    cases hdefined : K.get .objective o with
    | error err =>
      have hrenewal : renewal? K s.progress (p, o) = none :=
        renewal?_eq_none_iff.2 fun _ d _ hd => by cases hdefined.symm.trans hd
      refine ⟨e.ended p held o a .dropped, rfl, h.visit hnew rfl
        (fun q n hq => hq.changeIn p held _) (e.progress.nextEpoch_changeIn p held _).ge ?_
        (fun q x => e.find?_ended p q held o x .dropped hfound) (.dropped hactive hdefined)⟩
      simp [hrenewal, ended, mark]
    | ok definition =>
      cases haccepts : definition.goal.accepts a.data with
      | true =>
        have hrenewal : renewal? K s.progress (p, o) = none := by
          refine renewal?_eq_none_iff.2 fun b d hb hd => ?_
          cases hactive.symm.trans hb
          cases hdefined.symm.trans hd
          exact haccepts
        refine ⟨e, ?_, h.leave hnew hrenewal (hactive ▸ .kept hactive hdefined haccepts)⟩
        simp only [haccepts]
        rfl
      | false =>
        have hrenewal : renewal? K s.progress (p, o) =
            some ⟨p, o, definition.goal.initial, a.startedAt⟩ :=
          renewal?_eq_some_iff.2 ⟨a, definition, hactive, hdefined, haccepts, rfl⟩
        refine ⟨e.renewed p held o a definition.goal.initial, ?_,
          h.visit hnew rfl (fun q n hq => ?_) ?_ ?_
            (fun q x => e.find?_renewed p q held o x _ hfound)
            (.renewed hactive hdefined haccepts h.nextEpoch)⟩
        · simp only [haccepts]
          rfl
        · exact Slots.HeldBy.changeIn (s := e.progress.issueEpoch.2) hq p held _
        · exact Nat.le_trans (Nat.le_succ _)
            (e.progress.issueEpoch.2.nextEpoch_changeIn p held _).ge
        · rw [hrenewal]
          rfl

/-! ### All entries -/

theorem Fitted.refitEach (h : Fitted K s visited e) (hheld : s.progress.HeldBy p held)
    {ids : List ObjectId} (hnodup : ids.Nodup) (hnew : ∀ o ∈ ids, (p, o) ∉ visited) :
    ∃ visited' e', (refitEach K p held ids).run e = .ok ((), e') ∧ Fitted K s visited' e' ∧
      ∀ k, k ∈ visited' ↔ k ∈ visited ∨ k.1 = p ∧ k.2 ∈ ids := by
  induction ids generalizing visited e with
  | nil => exact ⟨visited, e, rfl, h, by simp⟩
  | cons o rest ih =>
    rw [List.nodup_cons] at hnodup
    rw [List.forall_mem_cons] at hnew
    obtain ⟨e₁, hfirst, h₁⟩ := h.refit hnew.1 hheld
    have hnew₁ : ∀ x ∈ rest, (p, x) ∉ (p, o) :: visited := fun x hx hmem => by
      rcases List.mem_cons.1 hmem with heq | hmem
      · obtain rfl : x = o := (Prod.ext_iff.1 heq).2
        exact hnodup.1 hx
      · exact hnew.2 x hx hmem
    obtain ⟨visited', e', hrest, h', hmem⟩ := ih h₁ hnodup.2 hnew₁
    refine ⟨visited', e', (Act.run_bind_of_run hfirst).trans hrest, h', fun k => ?_⟩
    rw [hmem, List.mem_cons, List.mem_cons, Prod.ext_iff]
    tauto

/-- Closing a slot that is empty changes no entry. -/
theorem Fitted.pruned (h : Fitted K s visited e) (p : PlayerId) (held : Nat) :
    Fitted K s visited (e.pruned p held) where
  rest := h.rest ▸ rfl
  nodup := h.nodup
  heldBy q n hq := (h.heldBy q n hq).prune p held
  nextEpoch := h.nextEpoch.trans (e.progress.nextEpoch_prune p held).ge
  outbox := h.outbox
  entry k hk := (e.find?_pruned p k.1 held k.2).symm ▸ h.entry k hk
  other k hk := (e.find?_pruned p k.1 held k.2).trans (h.other k hk)

/-- The slots are gone through, and with them all that is active in them. -/
theorem Fitted.refitSlots (h : Fitted K s visited e) {slots : List (PlayerId × Nat)}
    (hnodup : (slots.map Prod.fst).Nodup) (hheld : ∀ slot ∈ slots, s.progress.HeldBy slot.1 slot.2)
    (hnew : ∀ k ∈ visited, k.1 ∉ slots.map Prod.fst) :
    ∃ visited' e', (refitSlots K slots).run e = .ok ((), e') ∧ Fitted K s visited' e' ∧
      visited ⊆ visited' ∧
      ∀ p ∈ slots.map Prod.fst, ∀ o a, s.progress.find? p o = some a → (p, o) ∈ visited' := by
  induction slots generalizing visited e with
  | nil => exact ⟨visited, e, rfl, h, List.Subset.refl _, nofun⟩
  | cons slot rest ih =>
    obtain ⟨p, held⟩ := slot
    rw [List.map_cons, List.nodup_cons] at hnodup
    rw [List.forall_mem_cons] at hheld
    have hfresh (o : ObjectId) : (p, o) ∉ visited := fun hmem => hnew _ hmem List.mem_cons_self
    obtain ⟨visited₁, e₁, heach, h₁, hmem⟩ :=
      h.refitEach hheld.1 (e.progress.activeIn p held).distinct fun o _ => hfresh o
    have hnew₁ : ∀ k ∈ visited₁, k.1 ∉ rest.map Prod.fst := fun k hk hmem₁ => by
      rcases (hmem k).1 hk with hk | ⟨hp, -⟩
      · exact hnew k hk (List.mem_cons_of_mem _ hmem₁)
      · exact hnodup.1 (hp ▸ hmem₁)
    obtain ⟨visited', e', hrest, h', hsub, hall⟩ :=
      ih (h₁.pruned p held) hnodup.2 hheld.2 hnew₁
    refine ⟨visited', e', ?_, h', fun k hk => hsub ((hmem k).2 (.inl hk)), fun q hq o a ha => ?_⟩
    · rw [Objectives.refitSlots, Act.run_get_bind]
      exact (Act.run_bind_of_run heach).trans hrest
    · rcases List.mem_cons.1 hq with rfl | hq
      · refine hsub ((hmem _).2 (.inr ⟨rfl, ?_⟩))
        rw [← h.other (q, o) (hfresh o), (h.heldBy q held hheld.1).find?_eq] at ha
        exact Table.mem_keys_of_find? ha
      · exact hall q hq o a ha

/-- **All entries are fitted to packages**, each of them once, and nothing can go wrong. -/
theorem exists_fitted (K : Packages) (s : Engine) : ∃ visited e',
    (reconcile K).run s = .ok ((), e') ∧ Fitted K s visited e' ∧
    ∀ k ∉ visited, s.progress.find? k.1 k.2 = none := by
  let slots : List (PlayerId × Nat) := s.progress.slots.entries.map fun slot =>
    (slot.1, slot.2.number)
  have hplayers : slots.map Prod.fst = s.progress.slots.keys := by
    rw [List.map_map]
    rfl
  obtain ⟨visited, e', hrun, h, -, hall⟩ := (Fitted.init (K := K) (s := s)).refitSlots
    (hplayers ▸ s.progress.slots.distinct) (fun _ => s.progress.heldBy_of_mem_entries) nofun
  refine ⟨visited, e', hrun, h, fun k hk => Option.eq_none_iff_forall_ne_some.2 fun a ha => hk ?_⟩
  exact hall k.1 (hplayers ▸ s.progress.mem_keys_of_find? _ _ ha) k.2 a ha

section

variable (h : Fitted K s visited e)

include h

/-- Where nothing is active but what has been looked at, every entry is as the packages make it. -/
theorem Fitted.becomes (hall : ∀ k ∉ visited, s.progress.find? k.1 k.2 = none) (k : ProgressKey) :
    Becomes K s.progress k (e.progress.find? k.1 k.2) := by
  by_cases hk : k ∈ visited
  · exact h.entry k hk
  · rw [h.other k hk, hall k hk]
    exact .inactive (hall k hk)

/-- No two of the records that are queued belong to the same entry. -/
theorem Fitted.nodup_keys :
    ((visited.filterMap (renewal? K s.progress)).map ProgressRecord.key).Nodup := by
  refine h.nodup.sublist ?_
  clear h
  induction visited with
  | nil => exact .slnil
  | cons k rest ih =>
    cases hrenewal : renewal? K s.progress k with
    | none =>
      rw [List.filterMap_cons_none hrenewal]
      exact ih.cons k
    | some r =>
      rw [List.filterMap_cons_some hrenewal, List.map_cons, key_of_renewal? hrenewal]
      exact ih.cons_cons k

end

/-- What is queued are the records with which objectives begin anew. -/
theorem mem_renewals_iff (hall : ∀ k ∉ visited, s.progress.find? k.1 k.2 = none) :
    r ∈ visited.filterMap (renewal? K s.progress) ↔ renewal? K s.progress r.key = some r := by
  rw [List.mem_filterMap]
  constructor
  · rintro ⟨k, -, hrenewal⟩
    rwa [key_of_renewal? hrenewal]
  · intro hrenewal
    refine ⟨r.key, by_contra fun hk => ?_, hrenewal⟩
    obtain ⟨a, -, hactive, -⟩ := renewal?_eq_some_iff.1 hrenewal
    cases (hall r.key hk).symm.trans hactive

/-- What a reload makes of an entry. -/
theorem becomes_of_reload {levels : Nat} {answer : (Command.replacePackages K).Answer}
    (h : e.perform levels (.replacePackages K) = .ok (answer, e')) (k : ProgressKey) :
    Becomes K e.progress k (e'.progress.find? k.1 k.2) := by
  obtain ⟨visited, e₁, hrun, hfitted, hall⟩ := exists_fitted K { e with packages := K }
  cases hrun.symm.trans h
  exact hfitted.becomes hall k

/-! ### Nothing to do -/

theorem refit_of_fits (h : e.Fits K p o) : (refit K p held o).run e = .ok ((), e) := by
  rw [Objectives.refit, Act.run_get_bind]
  cases hactive : e.progress.findIn? p held o with
  | none => rfl
  | some a =>
    obtain ⟨definition, hdefined, haccepts⟩ := h a (e.progress.find?_of_findIn? _ _ _ hactive)
    simp only [hdefined, haccepts]
    rfl

theorem refitEach_of_fits (h : ∀ o, e.Fits K p o) (ids : List ObjectId) :
    (refitEach K p held ids).run e = .ok ((), e) := by
  induction ids with
  | nil => rfl
  | cons o rest ih => exact (Act.run_bind_of_run (refit_of_fits (h o))).trans ih

/-- Where no slot is empty there is none to close. -/
theorem pruned_of_tidy (h : e.progress.Tidy) : e.pruned p held = e := by
  have hprogress : e.progress.prune p held = e.progress := by
    unfold Slots.prune
    split
    · rename_i slot hslot
      exact if_neg fun hempty => (h p slot hslot hempty.2).elim
    · rfl
  rw [pruned, hprogress]

/-- Where all that is active fits and no slot is empty, a reload does nothing. -/
theorem refitSlots_of_fits (h : ∀ p o, e.Fits K p o) (htidy : e.progress.Tidy)
    (slots : List (PlayerId × Nat)) : (refitSlots K slots).run e = .ok ((), e) := by
  induction slots with
  | nil => rfl
  | cons slot rest ih =>
    have hprune : (prune slot.1 slot.2).run e = .ok ((), e) :=
      congrArg (fun e => Except.ok ((), e)) (pruned_of_tidy htidy)
    rw [Objectives.refitSlots, Act.run_get_bind]
    refine (Act.run_bind_of_run (refitEach_of_fits (h slot.1) _)).trans ?_
    exact (Act.run_bind_of_run hprune).trans ih

/-- Where a reload changes nothing all that is active fits, since what begins anew has another
epoch. -/
theorem fits_of_reload {levels : Nat} (hissued : e.Issued)
    (h : e.perform levels (.replacePackages K) = .ok ((), e)) (p : PlayerId) (o : ObjectId) :
    e.Fits K p o := by
  intro a ha
  cases ha ▸ becomes_of_reload h (p, o) with
  | kept _ hdefined haccepts => exact ⟨_, hdefined, haccepts⟩
  | renewed _ _ _ hnew => exact absurd (hissued p o _ ha) (Nat.not_lt.2 hnew)

/-- **A reload changes nothing** just where its packages are in force and all that is active fits
them. -/
theorem reload_eq_iff {levels : Nat} (hissued : e.Issued) (htidy : e.progress.Tidy) :
    e.perform levels (.replacePackages K) = .ok ((), e) ↔
      e.packages = K ∧ ∀ p o, e.Fits K p o := by
  constructor
  · intro h
    exact ⟨Steps.packages_eq (perform_steps h), fits_of_reload hissued h⟩
  · rintro ⟨rfl, hfits⟩
    exact refitSlots_of_fits hfits htidy _

/-- All that is active after a reload fits the packages, if that with which objectives begin anew
can be read by their goals. -/
theorem Fitted.fits_iff (h : Fitted K s visited e)
    (hall : ∀ k ∉ visited, s.progress.find? k.1 k.2 = none) :
    (∀ p o, e.Fits K p o) ↔
      ∀ r ∈ visited.filterMap (renewal? K s.progress), ∃ definition : Objective,
        K.get .objective r.objective = .ok definition ∧ definition.goal.accepts r.data = true := by
  constructor
  · intro hfits r hr
    obtain ⟨a, definition, hactive, hdefined, hrefuses, heq⟩ :=
      renewal?_eq_some_iff.1 ((mem_renewals_iff hall).1 hr)
    obtain ⟨epoch, -, hnow⟩ := (h.becomes hall r.key).exists_epoch hactive hdefined hrefuses
    rw [heq]
    exact hfits r.player r.objective _ hnow
  · intro hrenewals p o a ha
    cases ha ▸ h.becomes hall (p, o) with
    | kept _ hdefined haccepts => exact ⟨_, hdefined, haccepts⟩
    | @renewed before definition _ hactive hdefined hrefuses =>
      let r : ProgressRecord := ⟨p, o, definition.goal.initial, before.startedAt⟩
      have hrenewal : renewal? K s.progress r.key = some r :=
        renewal?_eq_some_iff.2 ⟨before, definition, hactive, hdefined, hrefuses, rfl⟩
      exact hrenewals r ((mem_renewals_iff hall).2 hrenewal)

/-! ### Runs -/

variable {levels : Nat} {cs : List Command} {registry : Registry} {integrations : Integrations}
  {world : World} {archived : Bool} {screen : String} {clock : Calendar.Timestamp} {dice : Dice}

/-- **A reload reconciles progress, and doing it twice does no more.**  After any run packages can
be put in force, with whatever levels of nesting, and nothing is changed but progress and what is
told of it: no session, no appointment, nothing of the world, and no completion event is set off.
Every entry becomes what the packages make of it; one that begins anew has an epoch that nobody else
has and under which nothing has happened before, and for each of these entries one record is queued
for the archive, and nothing else is.  The same packages may then be put in force again without any
effect, if and only if these records can be read by their own definitions; so it is with packages
that are lawful, as whatever the built-in keywords compile is. -/
theorem reconciled_by_reload
    (hrun : performAll levels cs (fresh registry integrations world archived screen clock dice) =
      .ok e)
    (K : Packages) : ∃ (e' : Engine) (records : List ProgressRecord),
    (∀ levels, e.perform levels (.replacePackages K) = .ok ((), e')) ∧
    e' = { e with
      packages := K
      progress := e'.progress
      outbox := e'.outbox
      journal := e'.journal } ∧
    (∀ epoch, e'.journal.times epoch .rewarded = e.journal.times epoch .rewarded) ∧
    (∀ p o, Becomes K e.progress (p, o) (e'.progress.find? p o)) ∧
    (∀ epoch, e.progress.nextEpoch ≤ epoch → e.journal.under epoch = []) ∧
    (∀ p o a q x b, e'.progress.find? p o = some a → e'.progress.find? q x = some b →
      a.epoch = b.epoch → p = q ∧ o = x) ∧
    e'.outbox = e.outbox.map (records.map RecordChange.upsert ++ ·) ∧
    (records.map ProgressRecord.key).Nodup ∧
    (∀ r : ProgressRecord, r ∈ records ↔ ∃ (a : Active) (definition : Objective),
      e.progress.find? r.player r.objective = some a ∧
      K.get .objective r.objective = .ok definition ∧ definition.goal.accepts a.data = false ∧
      r = ⟨r.player, r.objective, definition.goal.initial, a.startedAt⟩) ∧
    (∀ levels, e'.perform levels (.replacePackages K) = .ok ((), e') ↔
      ∀ r ∈ records, ∃ definition : Objective,
        K.get .objective r.objective = .ok definition ∧ definition.goal.accepts r.data = true) ∧
    (K.Lawful → ∀ levels, e'.perform levels (.replacePackages K) = .ok ((), e')) := by
  let s : Engine := { e with packages := K }
  obtain ⟨visited, e', hreconcile, hfitted, hall⟩ := exists_fitted K s
  have hperform (levels : Nat) : e.perform levels (.replacePackages K) = .ok ((), e') := hreconcile
  have hrewarded (epoch : Nat) :
      e'.journal.times epoch .rewarded = s.journal.times epoch .rewarded := by
    have hsteps : Steps .reload s e' := perform_steps (hperform levels)
    exact hsteps.times_rewarded nofun
  have hcharted := charted_of_performAll hrun
  have hcharted' : e'.Charted := hcharted.of_moves (perform_moves (hperform levels))
  have htidy : e'.progress.Tidy :=
    perform_tidy (tidy_of_performAll Slots.tidy_empty hrun) (hperform levels)
  have hpackages : e'.packages = K := Steps.packages_eq (perform_steps (hperform levels))
  let records := visited.filterMap (renewal? K s.progress)
  have hmem (r : ProgressRecord) : r ∈ records ↔ _ :=
    (mem_renewals_iff hall).trans renewal?_eq_some_iff
  have hagain (levels : Nat) : e'.perform levels (.replacePackages K) = .ok ((), e') ↔ _ :=
    (reload_eq_iff hcharted'.issued htidy).trans
      ((and_iff_right hpackages).trans (hfitted.fits_iff hall))
  refine ⟨e', records, hperform, hfitted.rest, hrewarded, fun p o => hfitted.becomes hall (p, o),
    fun epoch hnew => ?_, fun p o a q x b ha hb hepoch => ?_, hfitted.outbox, hfitted.nodup_keys,
    hmem, hagain, fun hlawful levels => (hagain levels).2 fun r hr => ?_⟩
  · obtain ⟨φ, h⟩ := hcharted epoch
    exact under_eq_nil_of_le h hnew
  · obtain ⟨φ, h⟩ := hcharted' b.epoch
    obtain ⟨rfl, rfl⟩ := (owner_of_at h).2 q x b hb rfl
    exact (owner_of_at h).2 p o a ha hepoch
  · obtain ⟨a, definition, -, hdefined, -, heq⟩ := (hmem r).1 hr
    exact ⟨definition, hdefined, heq ▸ (hlawful _ _ hdefined).accepts_initial⟩

/-- The hunt after an update: more wolves are asked for at first, then an arrow is to be landed, and
the bears are left alone. -/
def rehunt : Sources where
  packages := (∅ : Table String PackageSource).insert "hunt" { PackageSource.empty with
    objectives := .ofList [("first", "mobkill wolf 5"), ("second", "arrow 0;64;0;world 5")] }

/-- What the built-in keywords make of the hunt after its update. -/
def rehunted : Packages := Packages.compile (Vocabulary.registry ⟨true, true⟩) rehunt

theorem rehunted_eq : rehunted = compileWithin (Vocabulary.registry ⟨true, true⟩) rehunt 3 :=
  (compileWithin_eq (show 2 < 3 by decide) (by decide)).symm

/-- Of three objectives the first stays as it is, the second begins anew and the third goes. -/
theorem reconciled_by_reload_of_rehunt : ∃ e e' a b,
    performAll 1 (hunting ["first", "second", "third"]) idle = .ok e ∧
    e.perform 1 (.replacePackages rehunted) = .ok ((), e') ∧
    e.progress.find? ⟨"ann"⟩ (quarry "first") = some a ∧
    e'.progress.find? ⟨"ann"⟩ (quarry "first") = some a ∧
    e'.progress.find? ⟨"ann"⟩ (quarry "second") = some b ∧ b.data.isNull = true ∧
    (e.progress.find? ⟨"ann"⟩ (quarry "third")).isSome = true ∧
    e'.progress.find? ⟨"ann"⟩ (quarry "third") = none ∧
    e'.perform 1 (.replacePackages rehunted) = .ok ((), e') := by
  let key (name : String) : ProgressKey := (⟨"ann"⟩, quarry name)
  have h : passes (performAll 1 (hunting ["first", "second", "third"]) idle) (fun e =>
      (e.progress.find? ⟨"ann"⟩ (quarry "first")).isSome &&
        (renewal? rehunted e.progress (key "first")).isNone &&
        (renewal? rehunted e.progress (key "second")).any (·.data.isNull) &&
        (e.progress.find? ⟨"ann"⟩ (quarry "third")).isSome) = true := by
    rw [hunting, hunted_eq, rehunted_eq]
    decide +kernel
  have hdefined : (rehunted.get .objective (quarry "first")).isOk = true ∧
      (rehunted.get .objective (quarry "third")).isOk = false := by
    rw [rehunted_eq]
    decide +kernel
  obtain ⟨d, hd⟩ : ∃ d, rehunted.get .objective (quarry "first") = .ok d := by
    cases hget : rehunted.get .objective (quarry "first") with
    | ok d => exact ⟨d, rfl⟩
    | error err => simp [hget, Except.isOk, Except.toBool] at hdefined
  obtain ⟨err, herr⟩ : ∃ err, rehunted.get .objective (quarry "third") = .error err := by
    cases hget : rehunted.get .objective (quarry "third") with
    | ok d => simp [hget, Except.isOk, Except.toBool] at hdefined
    | error err => exact ⟨err, rfl⟩
  obtain ⟨e, hrun, h⟩ := exists_of_passes h
  simp only [Bool.and_eq_true] at h
  obtain ⟨⟨⟨hactive, hkept⟩, hrenewed⟩, hactive₃⟩ := h
  obtain ⟨a, ha⟩ := Option.isSome_iff_exists.1 hactive
  obtain ⟨r, hr, hnull⟩ := (Option.any_eq_true _ _).1 hrenewed
  obtain ⟨b, d₂, hb, hd₂, hrefuses, rfl⟩ := renewal?_eq_some_iff.1 hr
  obtain ⟨e', -, hreload, -, -, hbecomes, -, -, -, -, -, -, hagain⟩ :=
    reconciled_by_reload hrun rehunted
  have haccepts := renewal?_eq_none_iff.1 (Option.isNone_iff_eq_none.1 hkept) a d ha hd
  obtain ⟨epoch, -, hsecond⟩ := (hbecomes _ (quarry "second")).exists_epoch hb hd₂ hrefuses
  exact ⟨e, e', a, _, hrun, hreload 1, ha, (hbecomes _ _).eq_some ha hd haccepts, hsecond, hnull,
    hactive₃, (hbecomes _ (quarry "third")).eq_none herr, hagain (compile_lawful _ _) 1⟩

end Engine

end Questbook
