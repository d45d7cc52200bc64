/-
Questbook/Proofs/Engine/Private.lean

What runs for a player runs on what he has.

A step that is made for a player reads and changes what he has, and apart from blocks, dice and
notes nothing else.  So from twins the same step leads to twins, with the same answer: twins are
engines that go together.  Whoever works on objectives holds the number of a slot, and an epoch, and
finds under them in the one engine what he finds under those that stand for them in the other.

Main results: `Engine.twin_mirroredByPlay`, `Objectives.dispatch_private` and
`Objectives.mirrors_resume`.
-/
import Questbook.Proofs.Engine.Dice
import Questbook.Proofs.Engine.Goals
import Questbook.Proofs.Engine.MirrorPlay

namespace Questbook

variable {α : Type} {p : PlayerId} {N : Names} {e e' : Engine} {n : Nested}

/-- A step that answers the same to a player whatever other players there are. -/
abbrev Act.Private (p : PlayerId) (a : Act α) : Prop := Act.Mirrored (Engine.Twin p) a

/-! ### Work, dice and blocks -/

/-- Scheduling the same work. -/
theorem Act.mirrors_later (h : e.Twin p N e') {tasks tasks' : List (Nat × Task)}
    (htasks : List.Forall₂ (fun t t' => t'.1 = t.1 ∧ t.2.Twin p N t'.2) tasks tasks') :
    Mirrors (Engine.Twin p) N e e' Same (later tasks) (later tasks') := by
  refine mirrors_get_bind ?_
  split
  · rename_i agenda hagenda
    obtain ⟨agenda', hagenda', htwin⟩ :=
      h.agenda.afterAll? htasks (fun _ _ ht => ht.concerns) hagenda
    rw [hagenda']
    exact mirrors_modify { h with agenda := htwin }
  · exact mirrors_halt _

namespace Eval

theorem draw_run (e : Engine) : StateT.run (ExceptT.run draw) e =
    .ok (.ok (e.dice 0), { e with dice := e.dice.rest }) := by
  unfold draw
  rfl

/-- Both sides roll a number in the range of the dice, and not always the same one. -/
theorem mirrors_draw (h : e.Twin p N e') :
    Act.Mirrors (Engine.Twin p) N e e' (fun _ r r' => ∃ x x',
      (0 ≤ x ∧ x < 1) ∧ (0 ≤ x' ∧ x' < 1) ∧ r = .ok x ∧ r' = .ok x') (ExceptT.run draw)
      (ExceptT.run draw) := by
  intro r e₁ hrun
  rw [draw_run] at hrun
  obtain ⟨rfl, rfl⟩ := Prod.mk.inj (Except.ok.inj hrun)
  exact ⟨N, _, _, le_rfl, draw_run e', h.rolled, e.dice 0, e'.dice 0, h.dice.1 0, h.dice.2 0, rfl,
    rfl⟩

/-- A chance that leaves nothing to the dice comes out the same, though the dice have been rolled
for others in between. -/
theorem mirrors_chance {q : Quantity} {limit : Float} {e₀ : Engine} (h : e.Twin p N e')
    (hcertain : (Condition.chance q).demands ⊆ Demand.certain)
    (hrun : StateT.run (ExceptT.run (q.resolve n p)) e₀ = .ok (.ok limit, e)) :
    Act.Mirrors (Engine.Twin p) N e e' Same (ExceptT.run (do pure (decide ((← draw) < limit))))
      (ExceptT.run (do pure (decide ((← draw) < limit)))) := by
  rw [Condition.demands, Set.union_subset_iff] at hcertain
  have hq : q.Certain := Classical.byContradiction fun hluck => hcertain.2 ⟨rfl, hluck⟩ rfl
  rw [ExceptT.run_bind]
  refine Act.mirrors_bind (mirrors_draw h) ?_
  rintro N₂ _ _ e₂ e₂' - - htwin ⟨x, x', hx, hx', rfl, rfl⟩
  have hlimit := hq n p e₀ limit e hrun
  exact Act.mirrors_pure htwin (congrArg Except.ok (decide_eq_decide.2
    ((Dice.lt_iff hx' hlimit).trans (Dice.lt_iff hx hlimit).symm)))

/-- Blocks are not a player's own. -/
theorem pull_private (spot : Location) (switch : Switch) :
    (pull spot switch).Mirrored (Engine.Twin p) := by
  have hrun : ∀ e, ∃ blocks, StateT.run (ExceptT.run (pull spot switch)) e =
      .ok (.ok (), { e with world := { e.world with blocks } }) := by
    intro e
    rw [pull, run_get_bind]
    cases e.world.block? spot with
    | none => exact ⟨e.world.blocks, rfl⟩
    | some block =>
      dsimp only
      split
      · exact ⟨_, rfl⟩
      · exact ⟨e.world.blocks, rfl⟩
  intro N e e' h r e₁ hleft
  obtain ⟨blocks, hrun₁⟩ := hrun e
  obtain ⟨blocks', hrun'⟩ := hrun e'
  rw [hrun₁] at hleft
  obtain ⟨rfl, rfl⟩ := Prod.mk.inj (Except.ok.inj hleft)
  exact ⟨N, _, _, le_rfl, hrun', { h with world := { h.world with } }, rfl⟩

end Eval

/-! ### What content may do -/

theorem Engine.twin_mirroredAside (p : PlayerId) :
    MirroredAside p Demand.certain (Engine.Twin p) where
  packages h := h.packages
  integrations h := h.integrations
  tick h := h.agenda.tick
  world h := h.world
  isActive h := h.progress.isActive
  property? h := h.property?
  join avatar h := { h with world := h.world.join avatar }
  render frames h := { h with world := h.world.render frames }
  note _ h := { h with }
  later h hA := Act.mirrors_later h (.cons ⟨rfl, .fire hA⟩ .nil)
  pull := Eval.pull_private
  chance := Eval.mirrors_chance

theorem Engine.twin_mirroredByTalk (p : PlayerId) :
    MirroredByTalk p Demand.certain (Engine.Twin p) where
  registry h := h.registry
  defaultScreen h := h.defaultScreen
  within h := h.certain
  sessions h := h.sessions
  numbers h := (h.names .session).iff
  seat h screen hA := ⟨_, Names.le_add _ _ _ _, Names.add_self _ _ _ _, h.seat screen hA⟩
  put h hsession := h.changeSessions (Sessions.twin_put hsession _ _ _ _) rfl rfl
  drop h := h.changeSessions Sessions.twin_drop rfl rfl
  tell h _ what := h.told _ _ what

/-! ### Objectives that start and end -/

namespace Objectives

variable {held held' : Nat}

theorem start_private (id : ObjectId) : Act.Private p (start p id) := by
  refine Act.mirrored_bind (Act.mirrored_objective (Engine.twin_mirroredAside p) id) fun r => ?_
  split
  · exact Act.mirrored_pure _
  · rename_i definition
    refine Act.mirrored_get_bind fun N e e' h => ?_
    rw [h.progress.isActive]
    split
    · exact Act.mirrors_pure h rfl
    · have hbegun : Act.Private p (modify (·.begun p id definition.goal.initial)) :=
        Act.mirrored_modify fun N e e' h => h.begun id _
      exact Act.mirrored_bind hbegun (fun _ => Act.mirrored_pure _) N e e' h

/-- What is removed is removed on both sides, and was active under epochs that stand for each
other. -/
theorem mirrors_remove (h : e.Twin p N e') (hheld : N .slot held held') (id : ObjectId)
    {epoch epoch' : Option Nat} (hepoch : Option.Rel (N .epoch) epoch epoch') (how : Ending) :
    Act.Mirrors (Engine.Twin p) N e e' (fun N => Option.Rel (N .epoch)) (remove p held id epoch how)
      (remove p held' id epoch' how) := by
  have hfind := h.progress.findIn? (h.names .slot) hheld id
  refine Act.mirrors_get_bind ?_
  generalize e.progress.findIn? p held id = active at hfind ⊢
  generalize e'.progress.findIn? p held' id = active' at hfind ⊢
  cases hfind with
  | none => exact Act.mirrors_pure h .none
  | @some active active' ha =>
    have hsame : epoch'.all (· = active'.epoch) = epoch.all (· = active.epoch) := by
      cases hepoch with
      | none => rfl
      | some hepoch => exact decide_eq_decide.2 ((h.names .epoch).iff hepoch ha.epoch).symm
    dsimp only
    rw [hsame]
    split
    · refine Act.mirrors_bind (Act.mirrors_modify (h.removed hheld how)) ?_
      intro N' _ _ e₁ e₁' hN' _ htwin _
      exact Act.mirrors_pure htwin (.some (hN' _ _ _ ha.epoch))
    · exact Act.mirrors_pure h .none

theorem mirrors_prune (h : e.Twin p N e') (hheld : N .slot held held') :
    Act.Mirrors (Engine.Twin p) N e e' Same (prune p held) (prune p held') :=
  Act.mirrors_modify (h.pruned hheld)

theorem mirrors_finish {events : List EventRef} (hfire : Act.Private p (n.fire p events))
    (h : e.Twin p N e') (id : ObjectId) (epoch epoch' : Nat) :
    Act.Mirrors (Engine.Twin p) N e e' Same (finish n p id epoch events)
      (finish n p id epoch' events) :=
  Act.mirrors_bind (Act.mirrors_modify (h.noted _ _)) fun N' _ _ e₁ e₁' _ _ htwin _ =>
    hfire N' e₁ e₁' htwin

theorem cancel_private (id : ObjectId) : Act.Private p (cancel p id) := by
  refine Act.mirrored_get_bind fun N e e' h => ?_
  have hheld := h.progress.held?
  generalize e.progress.held? p = held at hheld ⊢
  generalize e'.progress.held? p = held' at hheld ⊢
  cases hheld with
  | none => exact Act.mirrors_pure h rfl
  | some hheld =>
    refine Act.mirrors_bind (mirrors_remove h hheld id .none .cancelled) ?_
    intro N₁ removed removed' e₁ e₁' hN₁ _ htwin hremoved
    refine Act.mirrors_bind (mirrors_prune htwin (hN₁ _ _ _ hheld)) ?_
    intro N₂ _ _ e₂ e₂' _ _ htwin₂ _
    cases hremoved <;> exact Act.mirrors_pure htwin₂ rfl

theorem complete_private (hfire : ∀ {events : List EventRef},
      Action.demandsOf true events ⊆ Demand.certain → Act.Private p (n.fire p events))
    (id : ObjectId) : Act.Private p (complete n p id) := by
  refine fun N e e' h => Act.mirrors_get_bind ?_
  rw [h.packages]
  cases hdefined : e.packages.get .objective id with
  | error err => exact Act.mirrors_pure h rfl
  | ok definition =>
    have hcertain := h.certain .objective id definition hdefined
    simp only [Kind.demands, Objective.demands, Set.union_subset_iff] at hcertain
    have hheld := h.progress.held?
    refine Act.mirrors_get_bind ?_
    generalize e.progress.held? p = held at hheld ⊢
    generalize e'.progress.held? p = held' at hheld ⊢
    cases hheld with
    | none => exact Act.mirrors_pure h rfl
    | some hheld =>
      refine Act.mirrors_bind (mirrors_remove h hheld id .none .completed) ?_
      intro N₁ removed removed' e₁ e₁' hN₁ _ htwin hremoved
      cases hremoved with
      | none => exact Act.mirrors_pure htwin rfl
      | some hepoch =>
        refine Act.mirrors_bind (mirrors_finish (hfire hcertain.2) htwin id _ _) ?_
        intro N₂ _ _ e₂ e₂' hN₂ _ htwin₂ _
        refine Act.mirrors_bind (mirrors_prune htwin₂ (hN₂ _ _ _ (hN₁ _ _ _ hheld))) ?_
        intro N₃ _ _ e₃ e₃' _ _ htwin₃ _
        exact Act.mirrors_pure htwin₃ rfl

end Objectives

theorem Engine.twin_mirroredByPlay (p : PlayerId) :
    MirroredByPlay p Demand.certain (Engine.Twin p) :=
  { Engine.twin_mirroredAside p with
    talks := Engine.twin_mirroredByTalk p
    start := Objectives.start_private
    cancel := Objectives.cancel_private
    complete := Objectives.complete_private }

/-! ### Objectives that advance -/

namespace Objectives

variable {held held' epoch epoch' : Nat} {id : ObjectId}

theorem mirrors_settle (hP : MirroredByContent n p Demand.certain (Engine.Twin p))
    (h : e.Twin p N e') (hheld : N .slot held held')
    {definition : Objective} (hcertain : definition.demands true ⊆ Demand.certain)
    (hepoch : N .epoch epoch epoch') :
    Act.Mirrors (Engine.Twin p) N e e' Same (settle n p held definition epoch)
      (settle n p held' definition epoch') := by
  simp only [Objective.demands, Set.union_subset_iff] at hcertain
  refine Act.mirrors_bind (allHold_mirrored hP hcertain.1.2 N e e' h) ?_
  rintro N₁ met met' e₁ e₁' hN₁ - htwin rfl
  split
  · refine Act.mirrors_bind (mirrors_remove htwin (hN₁ _ _ _ hheld) definition.id
      (.some (hN₁ _ _ _ hepoch)) .completed) ?_
    intro N₂ removed removed' e₂ e₂' hN₂ _ htwin₂ hremoved
    cases hremoved with
    | none => exact Act.mirrors_pure htwin₂ rfl
    | some _ =>
      refine Act.mirrors_bind (mirrors_finish (hP.fire hcertain.2) htwin₂ definition.id _ _) ?_
      intro N₃ _ _ e₃ e₃' hN₃ _ htwin₃ _
      refine Act.mirrors_bind (mirrors_prune htwin₃ (hN₃ _ _ _ (hN₂ _ _ _ (hN₁ _ _ _ hheld)))) ?_
      intro N₄ _ _ e₄ e₄' _ _ htwin₄ _
      exact Act.mirrors_pure htwin₄ rfl
  · exact Act.mirrors_pure htwin rfl

theorem mirrors_store (h : e.Twin p N e') (hheld : N .slot held held') (id : ObjectId)
    (hepoch : N .epoch epoch epoch') (data : Json) :
    Act.Mirrors (Engine.Twin p) N e e' Same (store p held id epoch data)
      (store p held' id epoch' data) := by
  have hfind := h.progress.findIn? (h.names .slot) hheld id
  refine Act.mirrors_get_bind ?_
  generalize e.progress.findIn? p held id = active at hfind ⊢
  generalize e'.progress.findIn? p held' id = active' at hfind ⊢
  cases hfind with
  | none => exact Act.mirrors_pure h rfl
  | @some active active' ha =>
    have hsame := (h.names .epoch).iff ha.epoch hepoch
    dsimp only
    by_cases hcurrent : active.epoch = epoch
    · rw [if_pos hcurrent, if_pos (hsame.1 hcurrent)]
      refine Act.mirrors_bind (Act.mirrors_modify (h.stored hheld ha epoch epoch' data)) ?_
      intro N' _ _ e₁ e₁' _ _ htwin _
      exact Act.mirrors_pure htwin rfl
    · rw [if_neg hcurrent, if_neg fun hcurrent' => hcurrent (hsame.2 hcurrent')]
      exact Act.mirrors_pure h rfl

variable {K : Packages}

theorem mirrors_offer (hP : MirroredByContent n p Demand.certain (Engine.Twin p))
    (hK : K.Within Demand.certain true) (h : e.Twin p N e')
    (hheld : N .slot held held') (event : GameEvent) (id : ObjectId) :
    Act.Mirrors (Engine.Twin p) N e e' Same (offer n K event p held id)
      (offer n K event p held' id) := by
  have hfind := h.progress.findIn? (h.names .slot) hheld id
  refine Act.mirrors_get_bind ?_
  -- Both sides find it active or neither does, and no more is used of their slots.
  generalize e.progress.findIn? p held id = active at hfind ⊢
  generalize e'.progress.findIn? p held' id = active' at hfind ⊢
  cases hdefined : K.get .objective id with
  | error err => exact Act.mirrors_pure h rfl
  | ok definition =>
    cases hfind with
    | none => exact Act.mirrors_pure h rfl
    | @some active active' ha =>
      have hcertain : definition.demands true ⊆ Demand.certain := hK .objective id _ hdefined
      dsimp only
      rw [ha.data]
      refine Act.mirrors_bind
        (Goal.handle_mirrored hP definition.goal active.data event N e e' h) ?_
      rintro N₁ _ r e₁ e₁' hN₁ hrun htwin rfl
      have hslot := hN₁ _ _ _ hheld
      have hepoch := hN₁ _ _ _ ha.epoch
      rcases r with err | ⟨data, outcome⟩
      · exact Act.mirrors_pure htwin rfl
      · cases outcome with
        | ignored => exact Act.mirrors_pure htwin rfl
        | progressed => exact Act.mirrors_discard (mirrors_store htwin hslot id hepoch data)
        | satisfied =>
          refine Act.mirrors_bind (mirrors_store htwin hslot id hepoch data) ?_
          rintro N₂ stored _ e₂ e₂' hN₂ - htwin₂ rfl
          split
          · exact Act.mirrors_discard (mirrors_settle hP htwin₂ (hN₂ _ _ _ hslot) hcertain
              (hN₂ _ _ _ hepoch))
          · exact Act.mirrors_pure htwin₂ rfl
        | deferred check =>
          have hcheck : check.demands ⊆ definition.demands true :=
            (Goal.demands_of_deferred hrun).trans
              (Set.subset_union_left.trans Set.subset_union_left)
          exact Act.mirrors_later htwin
            (.cons ⟨rfl, .recheck hepoch (hcheck.trans hcertain)⟩ .nil)

theorem mirrors_offerEach (hP : MirroredByContent n p Demand.certain (Engine.Twin p))
    (hK : K.Within Demand.certain true)
    (h : e.Twin p N e') (hheld : N .slot held held') (event : GameEvent) (ids : List ObjectId) :
    Act.Mirrors (Engine.Twin p) N e e' Same (offerEach n K event p held ids)
      (offerEach n K event p held' ids) := by
  induction ids generalizing N e e' with
  | nil => exact Act.mirrors_pure h rfl
  | cons id rest ih =>
    refine Act.mirrors_bind (mirrors_offer hP hK h hheld event id) ?_
    intro N' _ _ e₁ e₁' hN' _ htwin _
    exact ih htwin (hN' _ _ _ hheld)

theorem dispatch_private {event : GameEvent}
    (hP : MirroredByContent n event.player Demand.certain (Engine.Twin event.player)) :
    Act.Private event.player (dispatch n event) := by
  refine Act.mirrored_get_bind fun N e e' h => ?_
  have hheld := h.progress.held?
  rw [h.packages, h.progress.ids]
  generalize e.progress.held? event.player = held at hheld ⊢
  generalize e'.progress.held? event.player = held' at hheld ⊢
  cases hheld with
  | none => exact Act.mirrors_pure h rfl
  | some hheld => exact mirrors_offerEach hP h.certain h hheld event _

theorem mirrors_resume (hP : MirroredByContent n p Demand.certain (Engine.Twin p))
    (h : e.Twin p N e') (id : ObjectId)
    (hepoch : N .epoch epoch epoch') (check : Recheck) :
    Act.Mirrors (Engine.Twin p) N e e' Same (resume n p id epoch check)
      (resume n p id epoch' check) := by
  have hheld := h.progress.held?
  refine Act.mirrors_get_bind ?_
  generalize e.progress.held? p = held at hheld ⊢
  generalize e'.progress.held? p = held' at hheld ⊢
  cases hheld with
  | none => exact Act.mirrors_pure h rfl
  | some hheld =>
    refine Act.mirrors_get_bind ?_
    rw [h.progress.isCurrent (h.names .slot) (h.names .epoch) hheld id hepoch]
    split
    · refine Act.mirrors_bind (Recheck.passes_mirrored hP check N e e' h) ?_
      rintro N₁ _ r e₁ e₁' hN₁ - htwin rfl
      rcases r with err | passed
      · exact Act.mirrors_pure htwin rfl
      · cases passed with
        | false => exact Act.mirrors_pure htwin rfl
        | true =>
          refine Act.mirrors_get_bind ?_
          rw [htwin.packages]
          cases hdefined : e₁.packages.get .objective id with
          | error err => exact Act.mirrors_pure htwin rfl
          | ok definition =>
            have hcertain := htwin.certain .objective id definition hdefined
            exact Act.mirrors_discard (mirrors_settle hP htwin (hN₁ _ _ _ hheld) hcertain
              (hN₁ _ _ _ hepoch))
    · exact Act.mirrors_pure h rfl

end Objectives

end Questbook
