/-
Questbook/Proofs/Engine/Handlings.lean

The handlers that run in a dispatch.

A dispatch notes which objectives of its player are active and then comes to one of them after
another; at its turn an objective that is still found in the slot has the event handled by its goal,
on the progress that is stored by then.  `Handling` is such a run of a handler, and a dispatch is
nothing but its handlings, one after another:

    (dispatch n event).run e = (actEach n event event.player handlings).run e.

Handlers are at liberty to start, cancel and complete whatever they like.  Since the list of the
objectives is made beforehand, ascending and without repetition, so is that of the handlings; and
since progress is stored at an objective's own turn alone, an objective that has not ended by its
turn is handled on what was stored when the dispatch began.

Main result: `handled_once`.
-/
import Questbook.Proofs.Engine.Endings
import Questbook.Proofs.Engine.Reload
import Questbook.Proofs.Engine.Settling
import Questbook.Proofs.Names

namespace Questbook

namespace Objectives

variable {n : Nested} {K : Packages} {event : GameEvent} {p : PlayerId} {held : Nat}
  {id : ObjectId} {ids done : List ObjectId} {e e₁ : Engine}

/-! ### Handlings -/

/-- A handler that runs for an objective of a held slot: the definition that is in force, and what
is active. -/
structure Handling where
  held : Nat
  id : ObjectId
  definition : Objective
  active : Active

/-- The handler that runs at the turn of an objective, if there is one. -/
def handling? (K : Packages) (p : PlayerId) (held : Nat) (id : ObjectId) (e : Engine) :
    Option Handling :=
  match K.get .objective id, e.progress.findIn? p held id with
  | .ok definition, some active => some ⟨held, id, definition, active⟩
  | _, _ => none

/-- The goal handles the event, and its answer is heeded. -/
def Handling.act (h : Handling) (n : Nested) (event : GameEvent) (p : PlayerId) : Act Unit :=
  Act.attempt (h.definition.goal.handle n p h.active.data event) >>=
    heed n p h.held h.id h.definition h.active.epoch

/-- Handlers run one after another. -/
def actEach (n : Nested) (event : GameEvent) (p : PlayerId) : List Handling → Act Unit
  | [] => pure ()
  | h :: rest => do
    h.act n event p
    actEach n event p rest

/-- The handlers that run while an event is offered to one objective after another. -/
def handlings (n : Nested) (K : Packages) (event : GameEvent) (p : PlayerId) (held : Nat) :
    List ObjectId → Engine → List Handling
  | [], _ => []
  | id :: rest, e =>
    match handling? K p held id e with
    | none => handlings n K event p held rest e
    | some h =>
      h :: match (h.act n event p).run e with
        | .ok ((), e') => handlings n K event p held rest e'
        | .error _ => []

theorem handling?_eq_some_iff {h : Handling} : handling? K p held id e = some h ↔
    K.get .objective id = .ok h.definition ∧ e.progress.findIn? p held id = some h.active ∧
      h.held = held ∧ h.id = id := by
  unfold handling?
  constructor
  · intro heq
    split at heq
    · rename_i hdefined hactive
      cases heq
      exact ⟨hdefined, hactive, rfl, rfl⟩
    · cases heq
  · rintro ⟨hdefined, hactive, rfl, rfl⟩
    simp only [hdefined, hactive]

/-- To offer an event to an objective is to run its handler, if there is one. -/
theorem offer_run_eq : (offer n K event p held id).run e =
    match handling? K p held id e with
    | some h => (h.act n event p).run e
    | none => .ok ((), e) := by
  unfold handling?
  cases hdefined : K.get .objective id with
  | error err => exact offer_of_undefined hdefined
  | ok definition =>
    cases hactive : e.progress.findIn? p held id with
    | none => exact offer_of_inactive hactive
    | some active => exact offer_run hdefined hactive

/-- **To offer an event to some objectives is to run their handlers**, one after another. -/
theorem offerEach_run_eq : (offerEach n K event p held ids).run e =
    (actEach n event p (handlings n K event p held ids e)).run e := by
  induction ids generalizing e with
  | nil => rfl
  | cons id rest ih =>
    rw [offerEach, handlings, StateT.run_bind, offer_run_eq]
    cases handling? K p held id e with
    | none => exact ih
    | some h =>
      dsimp only
      rw [actEach, StateT.run_bind]
      cases (h.act n event p).run e with
      | error err => rfl
      | ok r => exact ih

/-- The handlers of several objectives, where the first of them have had their turns. -/
theorem handlings_append (rest : List ObjectId)
    (hdone : (offerEach n K event p held done).run e = .ok ((), e₁)) :
    handlings n K event p held (done ++ rest) e =
      handlings n K event p held done e ++ handlings n K event p held rest e₁ := by
  -- The first objectives come to an end, so that the handlings are not cut short among them.
  induction done generalizing e with
  | nil =>
    cases hdone
    rfl
  | cons id done ih =>
    obtain ⟨_, e₂, hoffer, hdone⟩ := Act.exists_of_run_bind hdone
    rw [offer_run_eq] at hoffer
    rw [List.cons_append, handlings, handlings]
    cases hhandling : handling? K p held id e with
    | none =>
      rw [hhandling] at hoffer
      cases hoffer
      exact ih hdone
    | some h =>
      rw [hhandling] at hoffer
      dsimp only at hoffer ⊢
      rw [hoffer]
      exact congrArg (h :: ·) (ih hdone)

/-- Handlers run in the order of the objectives, and for none of them twice. -/
theorem ids_handlings_sublist :
    ((handlings n K event p held ids e).map Handling.id).Sublist ids := by
  induction ids generalizing e with
  | nil => exact .slnil
  | cons id rest ih =>
    rw [handlings]
    cases hhandling : handling? K p held id e with
    | none => exact ih.cons id
    | some h =>
      obtain ⟨-, -, -, rfl⟩ := handling?_eq_some_iff.1 hhandling
      refine List.Sublist.cons_cons h.id ?_
      split
      · exact ih
      · exact List.nil_sublist _

/-- A handler runs in the state that those before it have left. -/
theorem exists_of_handlings_eq {before after : List Handling} {h : Handling}
    (heq : handlings n K event p held ids e = before ++ h :: after) :
    ∃ e₁, (actEach n event p before).run e = .ok ((), e₁) ∧
      handling? K p held h.id e₁ = some h := by
  induction ids generalizing e before with
  | nil => simp [handlings] at heq
  | cons id rest ih =>
    rw [handlings] at heq
    cases hhandling : handling? K p held id e with
    | none =>
      rw [hhandling] at heq
      exact ih heq
    | some first =>
      rw [hhandling] at heq
      dsimp only at heq
      obtain ⟨-, -, -, rfl⟩ := handling?_eq_some_iff.1 hhandling
      cases before with
      | nil =>
        obtain ⟨rfl, -⟩ := List.cons.inj heq
        exact ⟨e, rfl, hhandling⟩
      | cons x before =>
        obtain ⟨rfl, hrest⟩ := List.cons.inj heq
        split at hrest
        · rename_i e' hact
          obtain ⟨e₁, hbefore, hhandling₁⟩ := ih hrest
          exact ⟨e₁, (Act.run_bind_of_run hact).trans hbefore, hhandling₁⟩
        · simp at hrest

end Objectives

namespace Engine

open Objectives Slots

variable {levels : Nat} {mode : Mode} {cs : List Command} {event : GameEvent} {held : Nat}
  {id o : ObjectId} {p : PlayerId} {a : Active} {e e' e₁ : Engine}

/-! ### What is active is defined -/

/-- All that is active is defined by the packages in force. -/
def Defined (e : Engine) : Prop :=
  ∀ p o a, e.progress.find? p o = some a →
    ∃ definition, e.packages.get .objective o = .ok definition

theorem Step.defined (h : Step mode e e') (hmode : mode ≠ .reload) (he : e.Defined) :
    e'.Defined := by
  intro p o a hactive
  rw [h.packages_eq]
  cases h with
  | aside hprogress => exact he p o a (hprogress ▸ hactive)
  | prune => exact he p o a ((e.find?_pruned ..).symm.trans hactive)
  | start hdefined | restore hdefined =>
    have hactive : (e.enter _ _ _ _).2.progress.find? p o = some a := hactive
    rw [find?_enter] at hactive
    split at hactive
    · rename_i hkey
      exact ⟨_, hkey.2 ▸ hdefined⟩
    · exact he p o a hactive
  | store hfind =>
    rw [e.find?_stored _ _ _ _ _ _ _ hfind] at hactive
    split at hactive
    · rename_i hkey
      obtain ⟨rfl, rfl⟩ := hkey
      exact he _ _ _ (e.progress.find?_of_findIn? _ _ _ hfind)
    · exact he p o a hactive
  | cancel hfind | complete hfind =>
    have hactive := (e.find?_ended _ p _ _ o .cancelled hfind).symm.trans hactive
    split at hactive
    · cases hactive
    · exact he p o a hactive
  | drop | renew => exact absurd rfl hmode

theorem Steps.defined (h : Steps mode e e') (hmode : mode ≠ .reload) (he : e.Defined) :
    e'.Defined := by
  induction h with
  | refl => exact he
  | tail _ hstep ih => exact hstep.defined hmode ih

theorem defined_of_perform {c : Command} {answer : c.Answer} (he : e.Defined)
    (h : e.perform levels c = .ok (answer, e')) : e'.Defined := by
  have hsteps := perform_steps h
  rcases c.mode_cases with ⟨records, rfl⟩ | ⟨packages, rfl⟩ | ⟨hmode, hsetting⟩
  · exact Steps.defined hsteps nofun he
  · intro p o a hactive
    have hpackages : e'.packages = packages := hsteps.packages_eq
    rw [hpackages]
    exact (hactive ▸ becomes_of_reload h (p, o)).exists_definition
  · rw [hmode, hsetting] at hsteps
    exact Steps.defined hsteps nofun he

/-- All that is active after a run from the beginning is defined. -/
theorem Defined.of_performAll (he : e.Defined) (h : performAll levels cs e = .ok e') :
    e'.Defined := by
  induction cs using List.reverseRecOn generalizing e' with
  | nil =>
    cases h
    exact he
  | append_singleton cs c ih =>
    obtain ⟨e₁, answer, hbefore, hlast⟩ := performAll_concat h
    exact defined_of_perform (ih hbefore) hlast

/-! ### The handlers of a dispatch -/

/-- The handlers that run when an event is dispatched. -/
def handlings (levels : Nat) (event : GameEvent) (e : Engine) : List Handling :=
  match e.progress.held? event.player with
  | none => []
  | some held =>
    Objectives.handlings (nested levels) e.packages event event.player held
      (e.progress.ids event.player) e

theorem handlings_of_held? (hheld : e.progress.held? event.player = some held) :
    e.handlings levels event = Objectives.handlings (nested levels) e.packages event event.player
      held (e.progress.ids event.player) e := by
  rw [handlings, hheld]

/-- **A dispatch is its handlings**, one after another. -/
theorem dispatch_run_eq : e.perform levels (.dispatch event) =
    (actEach (nested levels) event event.player (e.handlings levels event)).run e := by
  show (dispatch (nested levels) event).run e = _
  cases hheld : e.progress.held? event.player with
  | none =>
    rw [dispatch, Act.run_get_bind, handlings, hheld]
    rfl
  | some held =>
    rw [dispatch_run held hheld rfl, handlings_of_held? hheld]
    exact offerEach_run_eq

/-- The turns come in ascending order. -/
theorem ascending_ids (e : Engine) (p : PlayerId) :
    (e.progress.ids p).Pairwise fun id id' => id.atMost id' = true ∧ id ≠ id' :=
  (ObjectId.isOrdering.pairwise_mergeSort id _).and (e.nodup_ids p)

theorem ids_handlings_sublist : ((e.handlings levels event).map Handling.id).Sublist
    (e.progress.ids event.player) := by
  cases hheld : e.progress.held? event.player with
  | none =>
    rw [handlings, hheld]
    exact List.nil_sublist _
  | some held =>
    rw [handlings_of_held? hheld]
    exact Objectives.ids_handlings_sublist

theorem mem_ids_iff : id ∈ e.progress.ids p ↔ ∃ a, e.progress.find? p id = some a := by
  rw [Slots.ids, ObjectId.sorted, (List.mergeSort_perm _ _).mem_iff, ← Table.contains_iff_mem_keys]
  exact Option.isSome_iff_exists

/-- What is active under its epoch at its turn is what was active at the beginning, and its handler
runs. -/
theorem Turn.exists_handling (hturn : e.Turn levels event held id e₁) (hissued : e.Issued)
    (hdefined : e.Defined) (ha : e.progress.find? event.player id = some a)
    (hcurrent : ∃ b, e₁.progress.find? event.player id = some b ∧ b.epoch = a.epoch) :
    e₁.progress.find? event.player id = some a ∧ ∃ before definition after,
      e.handlings levels event = before ++ ⟨held, id, definition, a⟩ :: after ∧
      (actEach (nested levels) event event.player before).run e = .ok ((), e₁) := by
  obtain ⟨hheld, done, rest, hids, hrun⟩ := hturn
  have hsteps : Steps .play e e₁ := offerEach_steps rfl hrun
  obtain ⟨b, hb, hepoch⟩ := hcurrent
  have hleaves : Leaves e.packages event.player id a.epoch e e₁ :=
    Turn.leaves ⟨hheld, done, rest, hids, hrun⟩ (hissued _ _ _ ha)
  obtain rfl : a = b := Option.some.inj (ha.symm.trans (hleaves.kept b hb hepoch))
  -- The slot is still the one that the dispatch holds, since it has been in use all the while.
  have hslot : e₁.InSlot event.player held a.epoch :=
    Steps.inSlot hsteps (hissued.inSlot ((e.progress.findIn?_of_held? _ _ _ hheld).trans ha))
  have hactive : e₁.progress.findIn? event.player held id = some a :=
    (e₁.progress.findIn?_of_held? _ _ _ (hslot.held hb rfl)).trans hb
  obtain ⟨definition, hget⟩ := hdefined _ _ _ ha
  have hhandling : handling? e.packages event.player held id e₁ =
      some ⟨held, id, definition, a⟩ := handling?_eq_some_iff.2 ⟨hget, hactive, rfl, rfl⟩
  have hbefore := offerEach_run_eq.symm.trans hrun
  have hsplit := handlings_append (id :: rest) hrun
  rw [← hids, ← handlings_of_held? hheld, Objectives.handlings, hhandling] at hsplit
  exact ⟨hb, _, definition, _, hsplit, hbefore⟩

/-! ### Every run -/

variable {registry : Registry} {integrations : Integrations} {world : World} {archived : Bool}
  {screen : String} {clock : Calendar.Timestamp} {dice : Dice}

/-- **A dispatch offers an event to an objective once at most.**  After any run, whatever the
handlers of a dispatch start, cancel, complete and start again: it is the handlers that make up the
dispatch, they run in ascending order of their objectives and for none of them twice, and only for
those that were active when it began.  Each of them runs on what is stored of its objective by then.
An objective that was active at the beginning and comes to its turn is handled just once, on what
was stored then and still is; if it is not, its start has been cancelled or completed meanwhile.
Where the dispatch comes to an end all have had their turns. -/
theorem handled_once
    (hrun : performAll levels cs (fresh registry integrations world archived screen clock dice) =
      .ok e)
    (event : GameEvent) :
    e.perform levels (.dispatch event) =
      (actEach (nested levels) event event.player (e.handlings levels event)).run e ∧
    ((e.handlings levels event).map Handling.id).Pairwise
      (fun id id' => id.atMost id' = true ∧ id ≠ id') ∧
    (∀ h ∈ e.handlings levels event, ∃ a, e.progress.find? event.player h.id = some a) ∧
    (∀ before h after, e.handlings levels event = before ++ h :: after → ∃ e₁,
      (actEach (nested levels) event event.player before).run e = .ok ((), e₁) ∧
      e.packages.get .objective h.id = .ok h.definition ∧
      e₁.progress.find? event.player h.id = some h.active) ∧
    (∀ id a held e₁, e.progress.find? event.player id = some a →
      e.Turn levels event held id e₁ →
      (((e.handlings levels event).map Handling.id).count id = 1 ∧
        e₁.progress.find? event.player id = some a ∧ ∃ before definition after,
          e.handlings levels event = before ++ ⟨held, id, definition, a⟩ :: after ∧
          (actEach (nested levels) event event.player before).run e = .ok ((), e₁)) ∨
      ((∀ b, e₁.progress.find? event.player id = some b → b.epoch ≠ a.epoch) ∧
        ∃ how, (how = .cancelled ∨ how = .completed) ∧
          ⟨event.player, id, a.epoch, .ended how⟩ ∉ e.journal ∧
          ⟨event.player, id, a.epoch, .ended how⟩ ∈ e₁.journal)) ∧
    ∀ e', e.perform levels (.dispatch event) = .ok ((), e') →
      ∀ id a, e.progress.find? event.player id = some a →
        ∃ held e₁, e.Turn levels event held id e₁ := by
  have hcharted := charted_of_performAll hrun
  have hdefined : e.Defined := Defined.of_performAll (fun _ _ _ h => by cases h) hrun
  have hsublist : ((e.handlings levels event).map Handling.id).Sublist _ := ids_handlings_sublist
  have hascending := (e.ascending_ids event.player).sublist hsublist
  refine ⟨dispatch_run_eq, hascending, fun h hh => ?_, fun before h after heq => ?_,
    fun id a held e₁ ha hturn => ?_,
    fun e' hdispatch id a ha => exists_turn_of_dispatch ha hdispatch⟩
  · exact mem_ids_iff.1 (hsublist.subset (List.mem_map_of_mem hh))
  · cases hheld : e.progress.held? event.player with
    | none => simp [handlings, hheld] at heq
    | some held =>
      rw [handlings_of_held? hheld] at heq
      obtain ⟨e₁, hbefore, hhandling⟩ := exists_of_handlings_eq heq
      obtain ⟨hget, hactive, -, -⟩ := handling?_eq_some_iff.1 hhandling
      exact ⟨e₁, hbefore, hget, e₁.progress.find?_of_findIn? _ _ _ hactive⟩
  · by_cases hcurrent : ∃ b, e₁.progress.find? event.player id = some b ∧ b.epoch = a.epoch
    · obtain ⟨hactive, before, definition, after, heq, hbefore⟩ :=
        hturn.exists_handling hcharted.issued hdefined ha hcurrent
      refine .inl ⟨?_, hactive, before, definition, after, heq, hbefore⟩
      refine List.count_eq_one_of_mem (hascending.imp And.right) ?_
      rw [heq]
      simp
    · have hover : ∀ b, e₁.progress.find? event.player id = some b → b.epoch ≠ a.epoch :=
        fun b hb hepoch => hcurrent ⟨b, hb, hepoch⟩
      obtain ⟨-, done, rest, -, hdone⟩ := hturn
      have hsteps : Steps .play e e₁ := offerEach_steps rfl hdone
      obtain ⟨how, hnew, hended⟩ := hcharted.exists_ended hsteps.moves ha hover
      exact .inr ⟨hover, how, hsteps.ending_of_play hnew hended rfl, hnew, hended⟩

/-- The first objective of the hunt is completed and has the second one start again.  All three are
handled in turn, the third one on what was stored when the dispatch began. -/
theorem handled_once_of_hunt : ∃ e e₁ a, performAll 1 (hunting ["first", "second", "third"]) idle =
      .ok e ∧
    (e.handlings 1 wolfKilled).map Handling.id = ["first", "second", "third"].map quarry ∧
    e.progress.find? ⟨"ann"⟩ (quarry "third") = some a ∧
    e.Turn 1 wolfKilled 0 (quarry "third") e₁ ∧
    e₁.progress.find? ⟨"ann"⟩ (quarry "third") = some a ∧
    ((e.handlings 1 wolfKilled).map Handling.id).count (quarry "third") = 1 := by
  let ids : List ObjectId := ["first", "second", "third"].map quarry
  have h : passes (performAll 1 (hunting ["first", "second", "third"]) idle) (fun e =>
      e.progress.held? ⟨"ann"⟩ == some 0 && (e.progress.activeOf ⟨"ann"⟩).keys == ids &&
        (Objectives.handlings (nested 1) e.packages wolfKilled ⟨"ann"⟩ 0 ids e).map
          Handling.id == ids &&
        passes ((offerEach (nested 1) e.packages wolfKilled ⟨"ann"⟩ 0
          (["first", "second"].map quarry)).run e) fun r =>
            (e.progress.find? ⟨"ann"⟩ (quarry "third")).any fun a =>
              (r.2.progress.find? ⟨"ann"⟩ (quarry "third")).any (·.epoch == a.epoch)) = true := by
    rw [hunting, hunted_eq]
    decide +kernel
  obtain ⟨e, hrun, h⟩ := exists_of_passes h
  simp only [Bool.and_eq_true, beq_iff_eq] at h
  obtain ⟨⟨⟨hheld, hkeys⟩, hhandled⟩, h⟩ := h
  obtain ⟨⟨_, e₁⟩, hdone, h⟩ := exists_of_passes h
  obtain ⟨a, ha, h⟩ := (Option.any_eq_true _ _).1 h
  obtain ⟨b, hb, hepoch⟩ := (Option.any_eq_true _ _).1 h
  have hids : e.progress.ids ⟨"ann"⟩ = ids := by
    rw [Slots.ids, hkeys]
    exact List.mergeSort_of_pairwise (by decide)
  have hturn : e.Turn 1 wolfKilled 0 (quarry "third") e₁ :=
    ⟨hheld, ["first", "second"].map quarry, [], hids, hdone⟩
  obtain ⟨-, -, -, -, hturns, -⟩ := handled_once hrun wolfKilled
  rcases hturns _ a 0 e₁ ha hturn with ⟨hcount, hactive, -⟩ | ⟨hover, -⟩
  · refine ⟨e, e₁, a, hrun, ?_, ha, hturn, hactive, hcount⟩
    exact (congrArg (List.map Handling.id) (handlings_of_held? hheld)).trans (hids ▸ hhandled)
  · exact absurd (beq_iff_eq.1 hepoch) (hover b hb)

end Engine

end Questbook
