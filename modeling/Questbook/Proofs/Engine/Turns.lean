/-
Questbook/Proofs/Engine/Turns.lean

The turns of a dispatch.

A dispatch notes which objectives of its player are active, and then offers the game event to one of
them after another.  What an objective sets off when its turn comes may start, cancel and complete
the others, so that a later one finds another state than the dispatch began with: `Engine.Turn` says
which.

By then everything that is active still has a definition, and progress that its goal can read.  So a
dispatch never passes over an objective for want of a definition, and no goal ever meets progress
that it has to refuse: what `Goal.handle` guards against does not come up.

Main result: `readable_at_turns`.
-/
import Questbook.Proofs.Engine.Readable

namespace Questbook

/-! ### Progress that can be read -/

section

variable {n : Nested} {p : PlayerId} {data : Json} {event : GameEvent} {goal : Goal}

/-- What a goal makes of a game event once it has read its progress. -/
def Goal.respond (n : Nested) (p : PlayerId) (data : Json) (event : GameEvent) :
    Goal → Eval (Json × Outcome)
  | arrow target range =>
    match event with
    | .projectileHit _ projectile .arrow spot =>
      pure (data, .deferred (.landing target range projectile spot))
    | _ => pure (data, .ignored)
  | reach target range =>
    match event with
    | .playerMoved _ spot => do
      let range ← range.resolve n p
      pure (data, if target.within spot.toSpot range then .satisfied else .ignored)
    | _ => pure (data, .ignored)
  | kill entities _ =>
    let left := (killsLeft? data).getD 0
    match event with
    | .entityKilled _ entity =>
      if countsKill entities entity then
        pure (killData (left - 1), if left - 1 = 0 then .satisfied else .progressed)
      else pure (data, .ignored)
    | _ => pure (data, .ignored)
  | custom goal => (goal.handle data event).run (n.ask p)

/-- A goal refuses the progress that it cannot read, and does nothing else before it responds. -/
theorem Goal.handle_eq : goal.handle n p data event =
    if goal.accepts data then goal.respond n p data event
    else throw (.world "corrupted progress record") := by
  cases goal with
  | arrow | reach | custom => rfl
  | kill entities amount =>
    cases hleft : killsLeft? data with
    | none => simp [handle, accepts, hleft]
    | some left => cases event <;> simp [handle, accepts, respond, hleft]

end

/-! ### The turns of a dispatch -/

namespace Objectives

variable {n : Nested} {K : Packages} {event : GameEvent} {p : PlayerId} {held : Nat}
  {e e₁ e₂ : Engine}

/-- Offering an event to some objectives is offering it to the first of them and then to the
others. -/
theorem offerEach_append (done rest : List ObjectId) :
    offerEach n K event p held (done ++ rest) =
      offerEach n K event p held done >>= fun _ => offerEach n K event p held rest := by
  induction done with
  | nil => simp [offerEach]
  | cons id done ih => simp [offerEach, ih]

/-- To dispatch an event is to offer it to what is active, in the slot that the player has. -/
theorem dispatch_run (held : Nat) {ids : List ObjectId}
    (hheld : e.progress.held? event.player = some held)
    (hids : e.progress.ids event.player = ids) : (dispatch n event).run e =
      (offerEach n e.packages event event.player held ids).run e := by
  have hget : (get : Act Engine).run e = .ok (e, e) := rfl
  refine (Act.run_bind_of_run hget).trans ?_
  rw [hheld, hids]

end Objectives

namespace Engine

variable {levels : Nat} {event : GameEvent} {e e₁ : Engine} {held : Nat} {id : ObjectId}

/-- In a dispatch from `e`, for a player who has the slot `held` by then, `e₁` is what an objective
finds when its turn comes. -/
def Turn (levels : Nat) (event : GameEvent) (e : Engine) (held : Nat) (id : ObjectId)
    (e₁ : Engine) : Prop :=
  e.progress.held? event.player = some held ∧
    ∃ done rest, e.progress.ids event.player = done ++ id :: rest ∧
      (Objectives.offerEach (nested levels) e.packages event event.player held done).run e =
        .ok ((), e₁)

/-- What comes to its turn is active when the dispatch begins. -/
theorem Turn.exists_find? (h : e.Turn levels event held id e₁) :
    ∃ active, e.progress.find? event.player id = some active := by
  obtain ⟨-, done, rest, hids, -⟩ := h
  have hmem : id ∈ e.progress.ids event.player := by simp [hids]
  have hkeys : id ∈ (e.progress.activeOf event.player).keys :=
    (List.mergeSort_perm _ _).mem_iff.1 hmem
  exact Option.isSome_iff_exists.1 (Table.contains_iff_mem_keys.2 hkeys)

/-- What play keeps still holds when the turn of an objective comes. -/
theorem Turn.keeps {A : Set Demand} {deep : Bool} {K : Packages} {P : Engine → Prop}
    {H : Halt → Prop} (h : e.Turn levels event held id e₁)
    (hP : KeptByGoals (nested levels) event.player A deep K P H)
    (hdefer : KeptByDeferral event.player A P) (he : P e) : P e₁ := by
  obtain ⟨-, done, rest, -, hrun⟩ := h
  rw [hP.changes.packages he] at hrun
  exact (Objectives.offerEach_keeps hP hdefer event done).of_run he hrun

/-- All that is active fits the packages in force when the turn of an objective comes. -/
theorem Turn.readable (h : e.Turn levels event held id e₁) (hlawful : e.packages.Lawful)
    (hreadable : e.Readable) : e₁.packages = e.packages ∧ e₁.Readable := by
  have hfits := fits_keptByProgress hlawful
  obtain ⟨hpackages, hfits₁⟩ := h.keeps (hfits.play levels event.player ()).toKeptByGoals
    (hfits.deferral event.player ()) ⟨rfl, hreadable⟩
  refine ⟨hpackages, fun q x => ?_⟩
  rw [hpackages]
  exact hfits₁ q x

/-! ### Every run -/

variable {cs : List Command} {registry : Registry} {integrations : Integrations} {world : World}
  {archived : Bool} {screen : String} {clock : Calendar.Timestamp} {dice : Dice}

/-- **Active progress is defined and can be read.**  Whatever lawful packages a run puts in force
and whatever records it reads back: at its end everything that is active is defined by the packages
in force, by a goal that can read its progress.  So it is at every turn of a dispatch from there.
An objective that comes to its turn has a definition, so that it is not passed over; and if it is
active by then, its goal responds to the event and does not refuse the progress. -/
theorem readable_at_turns
    (hlawful : ∀ packages, .replacePackages packages ∈ cs → packages.Lawful)
    (hrun : performAll levels cs (fresh registry integrations world archived screen clock dice) =
      .ok e) :
    (∀ p o active, e.progress.find? p o = some active → ∃ definition,
      e.packages.get .objective o = .ok definition ∧
        definition.goal.accepts active.data = true) ∧
    ∀ event held id e₁, e.Turn levels event held id e₁ →
      (∀ p o active, e₁.progress.find? p o = some active → ∃ definition,
        e.packages.get .objective o = .ok definition ∧
          definition.goal.accepts active.data = true) ∧
      ∃ definition, e.packages.get .objective id = .ok definition ∧
        ∀ active, e₁.progress.findIn? event.player held id = some active →
          definition.goal.accepts active.data = true ∧
          definition.goal.handle (nested levels) event.player active.data event =
            definition.goal.respond (nested levels) event.player active.data event := by
  obtain ⟨hlawful₁, hreadable⟩ := readable_of_performAll hlawful hrun Packages.lawful_empty
    (readable_fresh _ _ _ _ _ _ _)
  refine ⟨fun p o active h => hreadable p o active h, fun event held id e₁ hturn => ?_⟩
  obtain ⟨hpackages, hreadable₁⟩ := hturn.readable hlawful₁ hreadable
  refine ⟨fun p o active h => hpackages ▸ hreadable₁ p o active h, ?_⟩
  obtain ⟨before, hbefore⟩ := hturn.exists_find?
  obtain ⟨definition, hdefined, -⟩ := hreadable event.player id before hbefore
  refine ⟨definition, hdefined, fun active hactive => ?_⟩
  obtain ⟨definition', hdefined', haccepts⟩ :=
    hreadable₁ event.player id active (e₁.progress.find?_of_findIn? _ _ _ hactive)
  rw [hpackages] at hdefined'
  cases hdefined.symm.trans hdefined'
  exact ⟨haccepts, by rw [Goal.handle_eq, if_pos haccepts]⟩

/-- Packages in which the objective `forest.wolves` is to land an arrow within five blocks of a
place. -/
def archery (target : Location) : Packages where
  sources := ⟨(∅ : Table String PackageSource).insert "forest"
    { PackageSource.empty with
      objectives := (∅ : Table String String).insert "wolves" ("arrow " ++ target.text ++ " 5") }⟩
  built := Catalogue.empty.add .objective ⟨"forest", "wolves"⟩
    ⟨⟨"forest", "wolves"⟩, .arrow target (.constant 5), [], []⟩
  broken := []
  diagnostics := []

theorem lawful_archery (target : Location) : (archery target).Lawful := by
  intro id definition h
  have hmem : (id, definition) ∈ [((⟨"forest", "wolves"⟩ : ObjectId),
      (⟨⟨"forest", "wolves"⟩, .arrow target (.constant 5), [], []⟩ : Objective))] :=
    Table.mem_entries_of_find? (Packages.find?_of_get h)
  cases List.mem_singleton.1 hmem
  trivial

/-- A place to shoot at. -/
def glade : Location := .ofSpot ⟨"world", 0, 64, 0⟩

/-- An objective to kill wolves has become one to land an arrow: what was left to kill is gone, and
an arrow that hits is checked on the next tick. -/
theorem readable_at_turns_of_retyped : ∃ e e₁ active definition,
    performAll 1 [.replacePackages wolves,
      .request ⟨"ann"⟩ (.startObjective ⟨"forest", "wolves"⟩),
      .replacePackages (archery glade)] bare = .ok e ∧
    e.Turn 1 (.projectileHit ⟨"ann"⟩ "arrow" .arrow glade) 0 ⟨"forest", "wolves"⟩ e₁ ∧
    e₁.progress.findIn? ⟨"ann"⟩ 0 ⟨"forest", "wolves"⟩ = some active ∧
    e.packages.get .objective ⟨"forest", "wolves"⟩ = .ok definition ∧
    definition.goal.accepts active.data = true := by
  let event : GameEvent := .projectileHit ⟨"ann"⟩ "arrow" .arrow glade
  let cs : List Command := [.replacePackages wolves,
    .request ⟨"ann"⟩ (.startObjective ⟨"forest", "wolves"⟩), .replacePackages (archery glade)]
  obtain ⟨e, active, hrun, hheld, hkeys, hactive⟩ : ∃ e active, performAll 1 cs bare = .ok e ∧
      e.progress.held? ⟨"ann"⟩ = some 0 ∧
      (e.progress.activeOf ⟨"ann"⟩).keys = [⟨"forest", "wolves"⟩] ∧
      e.progress.findIn? ⟨"ann"⟩ 0 ⟨"forest", "wolves"⟩ = some active :=
    ⟨_, _, rfl, rfl, rfl, rfl⟩
  have hids : e.progress.ids ⟨"ann"⟩ = [⟨"forest", "wolves"⟩] := by
    rw [Slots.ids, hkeys]
    exact List.mergeSort_singleton _
  have hlawful : ∀ packages, .replacePackages packages ∈ cs → packages.Lawful := by
    intro packages hmem
    simp only [cs, List.mem_cons, Command.replacePackages.injEq, reduceCtorEq, false_or,
      List.not_mem_nil, or_false] at hmem
    rcases hmem with rfl | rfl
    · exact lawful_wolves
    · exact lawful_archery glade
  have hturn : e.Turn 1 event 0 ⟨"forest", "wolves"⟩ e := ⟨hheld, [], [], hids, rfl⟩
  obtain ⟨-, hturns⟩ := readable_at_turns hlawful hrun
  obtain ⟨-, definition, hdefined, hresponds⟩ := hturns event 0 _ e hturn
  exact ⟨e, e, active, definition, hrun, hturn, hactive, hdefined, (hresponds active hactive).1⟩

end Engine

end Questbook
