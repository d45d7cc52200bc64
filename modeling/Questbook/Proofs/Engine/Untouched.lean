/-
Questbook/Proofs/Engine/Untouched.lean

Progress is stored at an objective's own turns.

Whatever content does, it stores no progress: it may start objectives, cancel and complete them, and
it is the turn of an objective in a dispatch at which its progress changes.  So what is active for a
player under an epoch is left as it is by everything else, as long as it is active: by the turns of
his other objectives, by the other commands and by whatever is done for others.

`Leaves` says so of a change of the engine, looking back from its end: what is active under the
epoch then was active just so at its beginning.

Main results: `perform_leaves` for a command that offers the player no event, and for one that does
`Turn.leaves` and `Turn.exists_offer`.
-/
import Questbook.Proofs.Engine.Flat
import Questbook.Proofs.Engine.Soundness

namespace Questbook

open Engine

/-! ### What content does without storing progress -/

namespace KeptOnRequest

variable {p : PlayerId} {A : Set Demand} {K : Packages} {P : Engine → Prop} {levels : Nat}

/-- What is asked for on behalf of a player, other than that an event is dispatched. -/
theorem perform_keeps (hP : KeptOnRequest p A K P) {c : Command} (hc : c.player? = some p)
    (hdispatch : ∀ event, c ≠ .dispatch event) (hrequest : ∀ r, c = .request p r → .request r ∈ A) :
    (c.perform (nested levels)).Keeps P fun _ => True :=
  Command.perform_keeps_of_content hP.within (fun _ => hP.packages) (hP.content levels) hc
    (fun event hevent => absurd hevent (hdispatch event))
    fun r hr => hP.answer (hP.content levels) (hrequest r hr)

variable (hP : KeptOnRequest p Set.univ K P)

include hP

theorem fire_keeps (levels : Nat) (events : List EventRef) :
    ((nested levels).fire p events).Keeps P fun _ => True := by
  cases levels with
  | zero => exact Act.keeps_halt trivial
  | succ levels => exact Action.fireEach_keeps (hP.content levels) (Set.subset_univ _)

/-- To settle an objective is to run its conditions, to complete it and to fire its events. -/
theorem settle_keeps {held epoch : Nat} (definition : Objective) :
    (Objectives.settle (nested levels) p held definition epoch).Keeps P fun _ => True := by
  refine Act.keeps_bind (allHold_keeps (hP.content levels) (Set.subset_univ _)) fun met => ?_
  split
  · refine fun e he => Objectives.ensures_remove_bind he fun active hactive hepoch => ?_
    obtain rfl : epoch = active.epoch := by simpa using hepoch
    refine Objectives.ensures_finish_bind ?_
    have hcompleted := hP.complete he trivial hactive
    exact (hP.fire_keeps levels definition.events _ hcompleted).mono fun _ _ _ he' => hP.prune _ he'
  · exact Act.keeps_pure _

theorem resume_keeps {id : ObjectId} {epoch : Nat} {check : Recheck} :
    (Objectives.resume (nested levels) p id epoch check).Keeps P fun _ => True := by
  refine Act.keeps_get_bind fun e he => ?_
  split
  · exact he
  · refine Act.keeps_get_bind (fun e he => ?_) e he
    split
    · refine Act.keeps_bind (Recheck.passes_keeps (hP.content levels) (Set.subset_univ _))
        (fun r => ?_) e he
      split
      · exact Act.keeps_pure _
      · exact Act.keeps_pure _
      · refine fun e he => Act.ensures_objective_bind ?_
        split
        · exact he
        · rename_i definition _
          exact Act.keeps_discard (hP.settle_keeps definition) e he
    · exact he

/-- The turn of an objective keeps what is kept where its progress is stored and where it puts a
check off. -/
theorem offer_keeps (hdefer : KeptByDeferral p Set.univ P) {held : Nat} {id : ObjectId}
    (hstore : ∀ {e : Engine} {active : Active} (data : Json), P e →
      e.progress.findIn? p held id = some active →
      P (e.stored p held id active active.epoch data)) {K' : Packages} {event : GameEvent} :
    (Objectives.offer (nested levels) K' event p held id).Keeps P fun _ => True := by
  have hstored (epoch : Nat) (data : Json) :
      (Objectives.store p held id epoch data).Keeps P fun _ => True := by
    refine Act.keeps_get_bind fun e he => ?_
    cases hactive : e.progress.findIn? p held id with
    | none => exact he
    | some active =>
      dsimp only
      split
      · rename_i hepoch
        subst hepoch
        exact hstore data he hactive
      · exact he
  refine Act.keeps_get_bind fun e he => ?_
  split
  · rename_i definition active _ _
    refine Act.keeps_bind
      (Goal.handle_keeps (hP.content levels) (Set.subset_univ _) active.data event)
      (fun r => ?_) e he
    split
    · exact Act.keeps_pure _
    · exact Act.keeps_pure _
    · exact Act.keeps_discard (hstored _ _)
    · refine Act.keeps_bind (hstored _ _) fun stored => ?_
      split
      · exact Act.keeps_discard (hP.settle_keeps definition)
      · exact Act.keeps_pure _
    · refine Act.keeps_get_bind fun e he => ?_
      split
      · rename_i agenda hagenda
        exact hdefer.defer he (Set.subset_univ _) hagenda
      · trivial
  · exact he

end KeptOnRequest

namespace Engine

variable {K : Packages} {p q : PlayerId} {o id : ObjectId} {epoch held levels : Nat}
  {e₀ e e' e₁ e₂ : Engine} {active : Active}

/-! ### What is left as it is -/

/-- What is active after a chain of steps under an epoch that has been given out before was active
under it before. -/
theorem Steps.exists_of_active {mode : Mode} (h : Steps mode e e')
    (hissued : active.epoch < e.progress.nextEpoch)
    (hactive : e'.progress.find? p o = some active) :
    ∃ b, e.progress.find? p o = some b ∧ b.epoch = active.epoch := by
  induction h generalizing active with
  | refl => exact ⟨active, hactive, rfl⟩
  | tail hsteps hstep ih =>
    rcases hstep.active_cases hactive with ⟨b, hb, hepoch⟩ | ⟨hnext, -⟩
    · obtain ⟨b', hb', hepoch'⟩ := ih (hepoch ▸ hissued) hb
      exact ⟨b', hb', hepoch'.trans hepoch⟩
    · exact absurd (hissued.trans_le (Steps.nextEpoch_le hsteps)) (Nat.not_lt_of_ge hnext.ge)

/-- Nothing is active under the epoch but what has been so in `e₀`, just as it was there. -/
structure Leaves (K : Packages) (p : PlayerId) (o : ObjectId) (epoch : Nat) (e₀ e : Engine) :
    Prop where
  packages : e.packages = K
  issued : epoch < e.progress.nextEpoch
  kept : ∀ a, e.progress.find? p o = some a → a.epoch = epoch → e₀.progress.find? p o = some a

namespace Leaves

theorem refl (hissued : epoch < e.progress.nextEpoch) : Leaves e.packages p o epoch e e :=
  ⟨rfl, hissued, fun _ ha _ => ha⟩

variable (h : Leaves K p o epoch e₀ e)

include h

/-- A change that touches neither packages nor progress. -/
theorem congr (hpackages : e'.packages = e.packages) (hprogress : e'.progress = e.progress) :
    Leaves K p o epoch e₀ e' :=
  ⟨hpackages.trans h.packages, hprogress ▸ h.issued, hprogress ▸ h.kept⟩

/-- What is entered has an epoch of its own. -/
theorem enter (q : PlayerId) (id : ObjectId) (data : Json) (startedAt : Calendar.Timestamp) :
    Leaves K p o epoch e₀ (e.enter q id data startedAt).2 where
  packages := (e.packages_enter q id data startedAt).trans h.packages
  issued := h.issued.trans (Nat.lt_of_lt_of_eq (Nat.lt_succ_self _) (e.nextEpoch_enter ..).symm)
  kept a ha hepoch := by
    rw [find?_enter] at ha
    split at ha
    · cases ha
      exact absurd hepoch h.issued.ne'
    · exact h.kept a ha hepoch

theorem ended (how : Ending) (hactive : e.progress.findIn? q held id = some active) :
    Leaves K p o epoch e₀ (e.ended q held id active how) where
  packages := h.packages
  issued := h.issued.trans_eq (Slots.nextEpoch_changeIn ..).symm
  kept a ha hepoch := by
    rw [find?_ended _ _ _ _ _ _ _ hactive] at ha
    split at ha
    · cases ha
    · exact h.kept a ha hepoch

theorem removed (how : Ending) (hactive : e.progress.findIn? q held id = some active) :
    Leaves K p o epoch e₀ (e.removed q held id active how) :=
  (h.ended how hactive).congr rfl rfl

theorem pruned (q : PlayerId) (held : Nat) : Leaves K p o epoch e₀ (e.pruned q held) where
  packages := h.packages
  issued := h.issued.trans_eq (Slots.nextEpoch_prune ..).symm
  kept a ha hepoch := h.kept a ((e.find?_pruned ..).symm.trans ha) hepoch

/-- Progress is stored of another objective. -/
theorem stored (hother : ¬(q = p ∧ id = o)) (epoch' : Nat) (data : Json)
    (hactive : e.progress.findIn? q held id = some active) :
    Leaves K p o epoch e₀ (e.stored q held id active epoch' data) where
  packages := h.packages
  issued := h.issued.trans_eq (Slots.nextEpoch_changeIn ..).symm
  kept a ha hepoch := by
    rw [find?_stored _ _ _ _ _ _ _ _ hactive, if_neg hother] at ha
    exact h.kept a ha hepoch

theorem renewed (data : Json) (hactive : e.progress.findIn? q held id = some active) :
    Leaves K p o epoch e₀ (e.renewed q held id active data) where
  packages := h.packages
  issued := by
    have hnext : (e.renewed q held id active data).progress.nextEpoch = e.progress.nextEpoch + 1 :=
      Slots.nextEpoch_changeIn e.progress.issueEpoch.2 _ _ _
    rw [hnext]
    exact Nat.lt_succ_of_lt h.issued
  kept a ha hepoch := by
    rw [find?_renewed _ _ _ _ _ _ _ hactive] at ha
    split at ha
    · cases ha
      exact absurd hepoch h.issued.ne'
    · exact h.kept a ha hepoch

end Leaves

/-- Content leaves it as it is, whoever it runs for. -/
theorem leaves_kept (K : Packages) (p : PlayerId) (o : ObjectId) (epoch : Nat) (e₀ : Engine)
    (q : PlayerId) : KeptOnRequest q Set.univ K (Leaves K p o epoch e₀) where
  dice he := he.congr rfl rfl
  place _ _ he := he.congr rfl rfl
  join _ he := he.congr rfl rfl
  render _ he := he.congr rfl rfl
  note _ he := he.congr rfl rfl
  later he _ _ := he.congr rfl rfl
  talk _ _ := Set.subset_univ _
  seat _ he _ _ := he.congr rfl rfl
  put _ he _ _ _ _ := he.congr rfl rfl
  drop he _ := he.congr rfl rfl
  tell _ _ he := he.congr rfl rfl
  within _ _ _ _ := Set.subset_univ _
  packages he := he.packages
  start he _ _ := (he.enter _ _ _ _).congr rfl rfl
  cancel he hactive := (he.removed .cancelled hactive).pruned _ _
  prune held he := he.pruned _ held
  complete he _ hactive := (he.removed .completed hactive).congr rfl rfl

theorem leaves_keptByDeferral (K : Packages) (p : PlayerId) (o : ObjectId) (epoch : Nat)
    (e₀ : Engine) (q : PlayerId) : KeptByDeferral q Set.univ (Leaves K p o epoch e₀) :=
  ⟨fun he _ _ => he.congr rfl rfl⟩

theorem leaves_keptByReload (K : Packages) (p : PlayerId) (o : ObjectId) (epoch : Nat)
    (e₀ : Engine) (q : PlayerId) : KeptByReload q K (Leaves K p o epoch e₀) where
  drop he hactive _ := he.ended _ hactive
  renew he hactive _ _ := he.renewed _ hactive
  prune held he := he.pruned _ held

/-! ### Turns -/

/-- At the turn of another objective, or of another player's, -/
theorem offer_leaves (hother : ¬(q = p ∧ id = o)) {K' : Packages} {event : GameEvent} :
    (Objectives.offer (nested levels) K' event q held id).Keeps (Leaves K p o epoch e₀)
      fun _ => True :=
  (leaves_kept K p o epoch e₀ q).offer_keeps (leaves_keptByDeferral K p o epoch e₀ q)
    fun data he hactive => he.stored hother _ data hactive

/-- and at the turns of several, -/
theorem offerEach_leaves {ids : List ObjectId} (hother : ∀ id ∈ ids, ¬(q = p ∧ id = o))
    {K' : Packages} {event : GameEvent} :
    (Objectives.offerEach (nested levels) K' event q held ids).Keeps (Leaves K p o epoch e₀)
      fun _ => True := by
  induction ids with
  | nil => exact Act.keeps_pure _
  | cons id rest ih =>
    rw [List.forall_mem_cons] at hother
    exact Act.keeps_bind (offer_leaves hother.1) fun _ => ih hother.2

/-- and by a task, whatever it is, it is left as it is. -/
theorem task_leaves (t : Task) :
    (t.run (nested levels)).Keeps (Leaves K p o epoch e₀) fun _ => True := by
  cases t with
  | fire q events =>
    exact Action.fireEach_keeps ((leaves_kept K p o epoch e₀ q).content levels) (Set.subset_univ _)
  | recheck q id epoch' check => exact (leaves_kept K p o epoch e₀ q).resume_keeps
  | remind r =>
    refine Act.keeps_bind Act.keeps_get fun e =>
      Act.keeps_bind (Act.keeps_modify fun _ he => he.congr rfl rfl) fun _ =>
        Act.keeps_get_bind fun e he => ?_
    split
    · exact he.congr rfl rfl
    · trivial

theorem tasks_leave (due : List (Appointment Task)) :
    (Task.runEach (nested levels) due).Keeps (Leaves K p o epoch e₀) fun _ => True := by
  induction due with
  | nil => exact Act.keeps_pure _
  | cons a rest ih => exact Act.keeps_bind (task_leaves a.task) fun _ => ih

/-! ### Commands -/

/-- A command that offers no event to a player leaves what is active for him as it is. -/
theorem perform_leaves {c : Command} {answer : c.Answer}
    (hc : ∀ event, c = .dispatch event → event.player ≠ p)
    (hissued : epoch < e.progress.nextEpoch) (h : e.perform levels c = .ok (answer, e')) :
    ∃ K, Leaves K p o epoch e e' := by
  have hkept := leaves_kept e.packages p o epoch e
  have hplain (hkeeps : (c.perform (nested levels)).Keeps (Leaves e.packages p o epoch e)
      fun _ => True) : ∃ K, Leaves K p o epoch e e' := ⟨_, hkeeps.of_run (.refl hissued) h⟩
  cases c with
  | replacePackages packages =>
    have hkeeps : (Objectives.reconcile packages).Keeps (Leaves packages p o epoch e)
        fun _ => True := Objectives.reconcile_keeps (leaves_keptByReload packages p o epoch e)
    exact ⟨packages, hkeeps.of_run (e := { e with packages }) ⟨rfl, hissued, fun _ ha _ => ha⟩ h⟩
  | restore records =>
    exact hplain (Objectives.restore_keeps (fun q startedAt he _ _ => he.enter q _ _ startedAt)
      records)
  | dispatch event =>
    refine hplain (Act.keeps_get_bind fun e he => ?_)
    split
    · exact he
    · exact offerEach_leaves (fun id _ hkey => hc event rfl hkey.1) e he
  | tick =>
    refine hplain (Act.keeps_get_bind fun e he => ?_)
    exact Act.ensures_bind (R := fun _ => Leaves _ p o epoch _) (he.congr rfl rfl)
      fun _ e' _ he' => Act.keeps_bind (tasks_leave _) (fun _ => Act.keeps_pure _) e' he'
  | remind ticks r =>
    refine hplain (Act.keeps_get_bind fun e he => ?_)
    split
    · exact he.congr rfl rfl
    · trivial
  | changeWorld f => exact hplain (Act.keeps_modify fun _ he => he.congr rfl rfl)
  | setClock clock => exact hplain (Act.keeps_modify fun _ he => he.congr rfl rfl)
  | request q | check q | evaluate q | fire q | display q | value q =>
    exact hplain ((hkept q).perform_keeps rfl nofun fun _ _ => trivial)

theorem offerEach_steps {event : GameEvent} {ids : List ObjectId} (hpackages : e.packages = K)
    (h : (Objectives.offerEach (nested levels) K event p held ids).run e = .ok ((), e')) :
    Steps .play e e' := by
  subst hpackages
  have hI := steps_keptByProgress e
  exact (Objectives.offerEach_keeps (hI.play levels p ()).toKeptByGoals (hI.deferral p ()) event
    ids).of_run .refl h

/-- No objective has two turns in one dispatch. -/
theorem nodup_ids (e : Engine) (p : PlayerId) : (e.progress.ids p).Nodup :=
  (List.mergeSort_perm _ _).nodup_iff.2 (e.progress.activeOf p).distinct

/-- The turns before that of an objective leave it as it is. -/
theorem Turn.leaves {event : GameEvent} (hturn : e.Turn levels event held o e₁)
    (hissued : epoch < e.progress.nextEpoch) :
    Leaves e.packages event.player o epoch e e₁ := by
  obtain ⟨-, done, rest, hids, hrun⟩ := hturn
  have hnodup := e.nodup_ids event.player
  rw [hids] at hnodup
  have hdone : ∀ id ∈ done, ¬(event.player = event.player ∧ id = o) := fun id hid hkey =>
    (List.nodup_append.1 hnodup).2.2 id hid o List.mem_cons_self hkey.2
  exact (offerEach_leaves hdone).of_run (.refl hissued) hrun

/-- In the dispatch of an event each objective that is active for its player has its turn. -/
theorem exists_turn_of_dispatch {event : GameEvent}
    (hactive : e.progress.find? event.player o = some active)
    (h : e.perform levels (.dispatch event) = .ok ((), e')) :
    ∃ held e₁, e.Turn levels event held o e₁ := by
  obtain ⟨held, hheld, -⟩ := e.progress.exists_findIn?_of_find? _ _ hactive
  have hmem : o ∈ e.progress.ids event.player :=
    (List.mergeSort_perm _ _).mem_iff.2 (Table.mem_keys_of_find? hactive)
  obtain ⟨done, rest, hids⟩ := List.append_of_mem hmem
  have hrun := (Objectives.dispatch_run (n := nested levels) held hheld hids).symm.trans h
  rw [Objectives.offerEach_append] at hrun
  obtain ⟨_, e₁, hrun₁, -⟩ := Act.exists_of_run_bind hrun
  exact ⟨held, e₁, hheld, done, rest, hids, hrun₁⟩

/-- The event is offered to it then, and the others have their turns before and after that. -/
theorem Turn.exists_offer {event : GameEvent} (hturn : e.Turn levels event held o e₁)
    (h : e.perform levels (.dispatch event) = .ok ((), e')) :
    ∃ e₂, (Objectives.offer (nested levels) e.packages event event.player held o).run e₁ =
        .ok ((), e₂) ∧
      Steps .play e e₁ ∧ Steps .play e₁ e₂ ∧ Steps .play e₂ e' ∧
      ∀ epoch, epoch < e.progress.nextEpoch → Leaves e.packages event.player o epoch e₂ e' := by
  obtain ⟨hheld, done, rest, hids, hrun₁⟩ := hturn
  have hrun := (Objectives.dispatch_run (n := nested levels) held hheld hids).symm.trans h
  rw [Objectives.offerEach_append, Act.run_bind_of_run hrun₁] at hrun
  obtain ⟨_, e₂, hoffer, hrun₂⟩ := Act.exists_of_run_bind hrun
  have hsteps : Steps .play e e₁ := offerEach_steps rfl hrun₁
  have hoffered : (Objectives.offerEach (nested levels) e.packages event event.player held
      [o]).run e₁ = .ok ((), e₂) := (Act.run_bind_of_run hoffer).trans rfl
  have hsteps' : Steps .play e₁ e₂ := offerEach_steps hsteps.packages_eq hoffered
  have hpackages : e₂.packages = e.packages := hsteps'.packages_eq.trans hsteps.packages_eq
  refine ⟨e₂, hoffer, hsteps, hsteps', offerEach_steps hpackages hrun₂, fun epoch hissued => ?_⟩
  have hnodup := e.nodup_ids event.player
  rw [hids] at hnodup
  have hrest : ∀ id ∈ rest, ¬(event.player = event.player ∧ id = o) := fun id hid hkey =>
    (List.nodup_cons.1 (List.nodup_append.1 hnodup).2.1).1 (hkey.2 ▸ hid)
  have hissued₂ : epoch < e₂.progress.nextEpoch :=
    hissued.trans_le (hsteps.nextEpoch_le.trans hsteps'.nextEpoch_le)
  exact (offerEach_leaves hrest).of_run ⟨hpackages, hissued₂, fun _ ha _ => ha⟩ hrun₂

end Engine

end Questbook
