/-
Questbook/Proofs/Engine/Hunts.lean

Objectives to kill.

What is left to kill is kept as stored progress: at each turn it is read, counted down and stored
again, and only then the conditions are checked that the objective is under.

A hunt is one start of such an objective, under its epoch.  How it stands is told by its progress,
and its progress is changed by nothing but the kills that count, each at its own turn.

Main results: `kill_written` for the line, `Hunt.dispatch_counts` for a hunt that goes on through a
dispatch, and `Hunt.counts_of_earned` for one that is completed by it.
-/
import Questbook.Proofs.Package.Written
import Questbook.Proofs.Engine.Endings

namespace Questbook

open Engine

/-! ### Lines -/

theorem Text.lowerChar_lowerChar (c : Char) : lowerChar (lowerChar c) = lowerChar c := by
  by_cases hcapital : 'A' ≤ c ∧ c ≤ 'Z'
  · obtain ⟨n, hn, rfl⟩ := exists_of_capital hcapital
    revert n
    decide
  · have hsame : lowerChar c = c := if_neg hcapital
    rw [hsame, hsame]

theorem Text.lower_lower (s : String) : lower (lower s) = lower s := by
  have hcomp : lowerChar ∘ lowerChar = lowerChar := funext lowerChar_lowerChar
  simp [lower, hcomp]

/-- Whether a kill counts does not depend on the letter case of the names. -/
theorem countsKill_map_lower (names : List String) (entity : String) :
    countsKill (names.map Text.lower) entity = names.any (Text.sameFolded · entity) := by
  rw [countsKill, List.any_map]
  refine congrArg names.any (funext fun name => ?_)
  show (Text.lower (Text.lower name) == Text.lower entity) = _
  rw [Text.lower_lower]
  rfl

/-- There is something to kill. -/
theorem Vocabulary.nextPositive_pos {l l' : Line} {n : Nat}
    (h : l.read Line.nextPositive = (.ok n, l')) : 0 < n := by
  obtain ⟨k, l₁, hnext, h⟩ := Line.exists_of_read_bind h
  split at h
  · cases h
  · rename_i hk
    cases h
    exact Nat.pos_of_ne_zero hk

section

variable {registry : Registry} {sources : Sources} {id : ObjectId}

/-- What is compiled of an objective to kill: the conditions and events that its line lists, whom it
names and how many of them. -/
theorem kill_written (hkill : registry.goals.find? "mobkill" = some Vocabulary.kill)
    {raw : String} {line : Line} (hraw : sources.line? .objective id = some raw)
    (hline : Line.parse id raw = .ok line) (hkeyword : line.keyword = "mobkill")
    {definition : Objective}
    (h : (Packages.compile registry sources).get .objective id = .ok definition) :
    ∃ conditions line₁ events line₂ names line₃ amount line₄,
      line.read (Line.optionalList "conditions") = (.ok conditions, line₁) ∧
      line₁.read (Line.optionalList "events") = (.ok events, line₂) ∧
      line₂.read Line.nextList = (.ok names, line₃) ∧
      line₃.read Line.nextPositive = (.ok amount, line₄) ∧
      List.Forall₂ (fun name c =>
        ((Packages.compile registry sources).resolve name .condition id.package).map
          Resolved.conditionRef = .ok c) conditions definition.conditions ∧
      List.Forall₂ (fun name e => ∃ d,
        (Packages.compile registry sources).resolve name .event id.package = .ok d ∧
          e = ⟨d.id, d.target⟩) events definition.events ∧
      definition.goal = .kill (names.map Text.lower) amount := by
  obtain ⟨raw', line', hraw', hline', hdraft⟩ := objective_written h
  rw [hraw] at hraw'
  cases hraw'
  rw [hline] at hline'
  cases hline'
  obtain
    ⟨conditions, line₁, events, line₂, hread, hread₁, hkeyword₂, hconditions, hevents, hgoal⟩ :=
    Registry.exists_of_objective hdraft
  unfold Registry.byKeyword at hgoal
  rw [hkeyword₂, hkeyword, hkill] at hgoal
  obtain ⟨names, line₃, hnames, hgoal⟩ := Plan.exists_of_succeeds_read hgoal
  split at hgoal
  · exact hgoal.elim
  · obtain ⟨amount, line₄, hamount, hgoal⟩ := Plan.exists_of_succeeds_read hgoal
    refine ⟨conditions, line₁, events, line₂, names, line₃, amount, line₄, hread, hread₁, hnames,
      hamount, ?_, ?_, hgoal.symm⟩
    · exact hconditions.imp fun _ _ hmet => condition_met_iff_resolve.1 hmet
    · exact hevents.imp fun _ _ hmet => event_met_iff_resolve.1 hmet

end

/-! ### Hunts -/

/-- A start of an objective to kill, under an epoch: whom its line names, how many of them, and what
the line is compiled to. -/
structure Hunt where
  player : PlayerId
  objective : ObjectId
  epoch : Nat
  names : List String
  amount : Nat
  definition : Objective
  titled : definition.id = objective
  goal_eq : definition.goal = .kill (names.map Text.lower) amount
  amount_le : amount ≤ Decimal.maxUnsigned32

namespace Hunt

variable (h : Hunt) (levels : Nat) (start : Engine) (cs : List Command)

/-- Whether a command is the dispatch of a kill that counts: one by the player, of somebody who is
named, in whatever letter case. -/
def counts : Command → Bool
  | .dispatch (.entityKilled q entity) =>
    decide (q = h.player) && h.names.any (Text.sameFolded · entity)
  | _ => false

/-- How many kills that count are dispatched. -/
def kills (cs : List Command) : Nat := cs.countP h.counts

/-- So a hunt stands after `k` kills. -/
structure Stands (k : Nat) (e : Engine) : Prop where
  defined : e.packages.get .objective h.objective = .ok h.definition
  active : ∃ a, e.progress.find? h.player h.objective = some a ∧ a.epoch = h.epoch ∧
    a.data = killData (h.amount - k)
  left : e.property? h.player h.objective "left" = some (toString (h.amount - k))
  amount : e.property? h.player h.objective "amount" = some (toString (min k h.amount))
  total : e.property? h.player h.objective "total" = some (toString h.amount)

/-- In `e`, after the run of `cs`, a command is carried out, and in its course nothing is left to
kill; but then a condition is false or fails. -/
def Thwarted (e : Engine) (c : Command) : Prop :=
  ∃ a e₁ e₂, Reaches levels start cs e c a h.definition (killData 0) e₁ ∧ a.player = h.player ∧
    a.id = h.objective ∧ a.active.epoch = h.epoch ∧
    Unmet (nested levels) h.player h.definition.conditions e₁ e₂

variable {h levels start cs} {e e' e₁ e₂ : Engine} {c : Command} {done : List Command}
  {event : GameEvent} {k left held : Nat} {a b : Active}

theorem kills_concat : h.kills (done ++ [c]) = h.kills done + if h.counts c then 1 else 0 := by
  rw [kills, List.countP_append, List.countP_singleton]
  rfl

/-- A command that is no dispatch to the player is no kill that counts. -/
theorem counts_eq_false (hc : ∀ event, c = .dispatch event → event.player ≠ h.player) :
    h.counts c = false := by
  unfold counts
  split
  · rename_i q entity
    have hother : q ≠ h.player := hc _ rfl
    simp [hother]
  · rfl

/-- What a hunt stands at is told by its progress. -/
theorem stands (hdefined : e.packages.get .objective h.objective = .ok h.definition)
    (hactive : e.progress.find? h.player h.objective = some a) (hepoch : a.epoch = h.epoch)
    (hdata : a.data = killData (h.amount - k)) : h.Stands k e := by
  have hleft : killsLeft? a.data = some (h.amount - k) :=
    hdata ▸ Goal.killsLeft?_killData ((Nat.sub_le _ _).trans h.amount_le)
  have hproperty (name : String) : e.property? h.player h.objective name =
      killProperty? h.amount (h.amount - k) name := by
    unfold Engine.property?
    rw [hactive, hdefined]
    show h.definition.goal.property? name a.data = _
    rw [h.goal_eq]
    show (killsLeft? a.data).bind _ = _
    rw [hleft]
    rfl
  have hkilled : h.amount - min (h.amount - k) h.amount = min k h.amount := by omega
  refine ⟨hdefined, ⟨a, hactive, hepoch, hdata⟩, hproperty _, ?_, hproperty _⟩
  rw [hproperty, ← hkilled]
  rfl

/-! ### Turns -/

theorem accepts_killData (hleft : left ≤ Decimal.maxUnsigned32) :
    h.definition.goal.accepts (killData left) = true := by
  rw [h.goal_eq]
  show (killsLeft? (killData left)).isSome = true
  rw [Goal.killsLeft?_killData hleft]
  rfl

/-- What the goal makes of an event for its player. -/
theorem handle_run (n : Nested) (hplayer : event.player = h.player)
    (hleft : left ≤ Decimal.maxUnsigned32) :
    (Act.attempt (h.definition.goal.handle n h.player (killData left) event)).run e =
      .ok (.ok (if h.counts (.dispatch event) then
        (killData (left - 1), if left - 1 = 0 then .satisfied else .progressed)
        else (killData left, .ignored)), e) := by
  rw [Goal.handle_eq, if_pos (accepts_killData hleft), h.goal_eq]
  cases event with
  | entityKilled q entity =>
    obtain rfl : q = h.player := hplayer
    simp only [Goal.respond, Goal.killsLeft?_killData hleft, countsKill_map_lower, counts,
      decide_true, Bool.true_and, Option.getD_some]
    split <;> rfl
  | _ => rfl

/-- What the turn of the hunt comes to, with so many left to kill. -/
theorem offer_cases {K : Packages} (hplayer : event.player = h.player)
    (hdefined : K.get .objective h.objective = .ok h.definition)
    (hactive : e₁.progress.findIn? h.player held h.objective = some a) (hepoch : a.epoch = h.epoch)
    (hdata : a.data = killData left) (hleft : left ≤ Decimal.maxUnsigned32)
    (hoffer : (Objectives.offer (nested levels) K event h.player held h.objective).run e₁ =
      .ok ((), e₂)) :
    h.counts (.dispatch event) = false ∧ e₂ = e₁ ∨
    h.counts (.dispatch event) = true ∧ left - 1 ≠ 0 ∧
      e₂ = e₁.stored h.player held h.objective a h.epoch (killData (left - 1)) ∨
    h.counts (.dispatch event) = true ∧ left - 1 = 0 ∧ ∃ met,
      Settles (nested levels) h.player held h.definition h.epoch
        (e₁.stored h.player held h.objective a h.epoch (killData 0)) met e₂ := by
  have hhandle := h.handle_run (e := e₁) (nested levels) hplayer hleft
  rw [← hdata] at hhandle
  have hstored (data : Json) : (Objectives.store h.player held h.objective h.epoch data).run e₁ =
      .ok (true, e₁.stored h.player held h.objective a h.epoch data) :=
    Objectives.store_of_current hactive hepoch
  rw [Objectives.offer_run hdefined hactive, Act.run_bind_of_run hhandle, hepoch] at hoffer
  cases hcounts : h.counts (.dispatch event) with
  | false =>
    rw [hcounts] at hoffer
    cases hoffer
    exact .inl ⟨rfl, rfl⟩
  | true =>
    rw [hcounts] at hoffer
    by_cases hnone : left - 1 = 0
    · simp only [if_true, hnone] at hoffer
      have hoffer := (Act.run_bind_of_run (hstored _)).symm.trans hoffer
      obtain ⟨met, hsettle⟩ := Objectives.run_discard.1 hoffer
      exact .inr (.inr ⟨rfl, hnone, met, Objectives.settle_run_iff.1 hsettle⟩)
    · simp only [if_true, if_neg hnone] at hoffer
      obtain ⟨_, hstore⟩ := Objectives.run_discard.1 hoffer
      cases (hstored _).symm.trans hstore
      exact .inr (.inl ⟨rfl, hnone, rfl⟩)

/-- If the hunt is active still when it has been settled, a condition was not met, and it is as it
was before. -/
theorem unmet_of_settles {met : Bool} (hissued : h.epoch < e₁.progress.nextEpoch)
    (hslot : e₂.InSlot h.player held h.epoch)
    (hsettles : Settles (nested levels) h.player held h.definition h.epoch e₁ met e₂)
    (hactive : e₂.progress.find? h.player h.objective = some a) (hepoch : a.epoch = h.epoch) :
    Unmet (nested levels) h.player h.definition.conditions e₁ e₂ ∧
      e₁.progress.find? h.player h.objective = some a := by
  have hkept := leaves_kept e₁.packages h.player h.objective h.epoch e₁ h.player
  have hchecked {met : Bool} {e : Engine}
      (hrun : (allHold (nested levels) h.player h.definition.conditions).run e₁ = .ok (met, e)) :
      Leaves e₁.packages h.player h.objective h.epoch e₁ e :=
    (allHold_keeps (hkept.content levels) (Set.subset_univ _)).of_run (.refl hissued) hrun
  cases hsettles with
  | unmet hunmet => exact ⟨hunmet, (hchecked hunmet.run).kept a hactive hepoch⟩
  | stale _ hstale =>
    have hheld := hslot.held hactive hepoch
    rw [Objectives.isCurrent_eq_false_iff, h.titled, Slots.findIn?_of_held? _ _ _ _ hheld] at hstale
    exact absurd hepoch (hstale a hactive)
  | @completed now e₃ e₄ hmet hnow _ hfire =>
    -- What has been completed is not active under the epoch any more, whatever its events do.
    rw [h.titled] at hnow hfire
    let gone := e₃.completed h.player held h.objective now
    have hbefore := hkept.complete (hchecked hmet.run) trivial hnow
    have hafter : Leaves gone.packages h.player h.objective h.epoch gone e₄ :=
      ((leaves_kept _ _ _ _ _ _).fire_keeps levels h.definition.events).of_run
        (.refl hbefore.issued) hfire
    have hgone : gone.progress.find? h.player h.objective = none :=
      (e₃.find?_ended _ _ _ _ _ .completed hnow).trans (if_pos ⟨rfl, rfl⟩)
    have hactive : e₄.progress.find? h.player h.objective = some a :=
      (e₄.find?_pruned ..).symm.trans hactive
    cases hgone.symm.trans (hafter.kept a hactive hepoch)

/-- At the turn of the hunt its goal is reached by a kill that counts, if it is the last one. -/
theorem reaches_of_turn (hplayer : event.player = h.player)
    (hdefined : e.packages.get .objective h.objective = .ok h.definition)
    (hturn : e.Turn levels event held h.objective e₁)
    (hactive : e₁.progress.findIn? h.player held h.objective = some a) (hepoch : a.epoch = h.epoch)
    (hdata : a.data = killData left) (hleft : left ≤ Decimal.maxUnsigned32)
    (hcounts : h.counts (.dispatch event) = true) (hnone : left - 1 = 0)
    (hoffer : (Objectives.offer (nested levels) e.packages event h.player held h.objective).run e₁ =
      .ok ((), e₂)) :
    Reaches levels start cs e (.dispatch event)
      ⟨h.player, held, h.objective, a, h.definition.goal.demands, e₁, e₂⟩ h.definition (killData 0)
      (e₁.stored h.player held h.objective a h.epoch (killData 0)) := by
  have hhandle := h.handle_run (e := e₁) (nested levels) hplayer hleft
  rw [if_pos hcounts, if_pos hnone, hnone, ← hdata, ← hplayer] at hhandle
  rw [← hplayer] at hactive hoffer
  have hreaches : Reaches levels start cs e (.dispatch event) _ _ _ _ :=
    .turn hturn hdefined hactive hhandle hactive rfl hoffer
  rwa [hplayer, hepoch] at hreaches

/-- A hunt that is active after an event has been dispatched to its player has counted it, if it
counts; and if nothing is left, it was thwarted. -/
theorem dispatch_counts (hissued : e.Issued) (hstands : h.Stands k e)
    (hplayer : event.player = h.player)
    (hstep : e.perform levels (.dispatch event) = .ok ((), e'))
    (hactive : e'.progress.find? h.player h.objective = some a) (hepoch : a.epoch = h.epoch) :
    a.data = killData (h.amount - (k + if h.counts (.dispatch event) then 1 else 0)) ∧
      (h.counts (.dispatch event) = true → h.amount ≤ k + 1 →
        h.Thwarted levels start cs e (.dispatch event)) := by
  obtain ⟨b, hb, hbepoch, hbdata⟩ := hstands.active
  have hold : h.epoch < e.progress.nextEpoch := hbepoch ▸ hissued _ _ b hb
  rw [← hplayer] at hb hactive
  obtain ⟨held, e₁, hturn⟩ := exists_turn_of_dispatch hb hstep
  obtain ⟨e₂, hoffer, hsteps, hsteps', -, hrest⟩ := hturn.exists_offer hstep
  have hbefore := hturn.leaves hold
  have hafter := hrest h.epoch hold
  rw [hplayer] at hb hactive hoffer hafter hbefore
  -- What is active in the end was so after the turn, before it, and when the dispatch began.
  have hleft := hafter.kept a hactive hepoch
  obtain ⟨b', hb', hbepoch'⟩ :=
    hsteps'.exists_of_active (hepoch ▸ hold.trans_le hsteps.nextEpoch_le) hleft
  rw [hepoch] at hbepoch'
  cases hb.symm.trans (hbefore.kept b' hb' hbepoch')
  have hslot : e₁.InSlot h.player held h.epoch := by
    have hheld : e.progress.findIn? h.player held h.objective = some b :=
      (Slots.findIn?_of_held? _ _ _ _ (hplayer ▸ hturn.1)).trans hb
    exact hsteps.inSlot (hbepoch ▸ hissued.inSlot hheld)
  have hfound : e₁.progress.findIn? h.player held h.objective = some b :=
    (Slots.findIn?_of_held? _ _ _ _ (hslot.held hb' hbepoch)).trans hb'
  have hstored (data : Json) := e₁.find?_stored h.player h.player held h.objective h.objective data
    h.epoch hfound
  have hbound : h.amount - k ≤ Decimal.maxUnsigned32 := (Nat.sub_le _ _).trans h.amount_le
  rcases offer_cases hplayer hstands.defined hfound hbepoch hbdata hbound hoffer with
    ⟨hcounts, rfl⟩ | ⟨hcounts, hsome, rfl⟩ | ⟨hcounts, hnone, met, hsettles⟩
  · cases hb'.symm.trans hleft
    rw [hcounts]
    exact ⟨hbdata, nofun⟩
  · rw [hstored, if_pos ⟨rfl, rfl⟩] at hleft
    cases hleft
    rw [hcounts]
    exact ⟨congrArg killData (by simp; omega), fun _ henough => absurd henough (by omega)⟩
  · have hstill : h.epoch < (e₁.stored h.player held h.objective b h.epoch
        (killData 0)).progress.nextEpoch :=
      (hold.trans_le hsteps.nextEpoch_le).trans_eq (Slots.nextEpoch_changeIn ..).symm
    obtain ⟨hunmet, hsame⟩ :=
      unmet_of_settles hstill (hsteps'.inSlot hslot) hsettles hleft hepoch
    rw [hstored, if_pos ⟨rfl, rfl⟩] at hsame
    cases hsame
    refine ⟨congrArg killData (by simp [hcounts]; omega), fun _ _ => ?_⟩
    exact ⟨_, _, _,
      reaches_of_turn hplayer hstands.defined hturn hfound hbepoch hbdata hbound hcounts
        hnone hoffer, rfl, rfl, hbepoch, hunmet⟩

/-- The goal of a hunt puts no checks off. -/
theorem not_putsOff {check : Recheck} {epoch : Nat}
    (hdefined : e.packages.get .objective h.objective = .ok h.definition) :
    ¬ e.PutsOff levels event h.objective epoch check := by
  intro hputs
  obtain ⟨-, hdefined', -, hrun⟩ := hputs
  cases hdefined.symm.trans hdefined'
  rw [h.goal_eq, Goal.handle_eq] at hrun
  split at hrun
  · simp only [Goal.respond] at hrun
    split at hrun
    · split at hrun
      · split at hrun <;> cases hrun
      · cases hrun
    · cases hrun
  · cases hrun

/-- What is completed by its turn in a dispatch is completed by a kill that counts, after which
nothing is left. -/
theorem counts_of_earned (hissued : e.Issued) (hstands : h.Stands k e)
    (hearned : Earned levels start cs e (.dispatch event)
      ⟨h.player, h.objective, h.epoch, .ended .completed⟩) :
    h.counts (.dispatch event) = true ∧ h.amount ≤ k + 1 := by
  obtain ⟨a, definition, data, e₁, hreaches, hplayer, hobjective, hepoch, -⟩ := hearned
  cases hreaches with
  | @turn _ held id _ active now _ e₀ _ _ hturn hdefined hactive hsatisfied _ _ _ =>
    obtain rfl : h.objective = id := hobjective
    have hown : event.player = h.player := hplayer.symm
    have hsame : active.epoch = h.epoch := hepoch.symm
    cases hstands.defined.symm.trans hdefined
    obtain ⟨b, hb, hbepoch, hbdata⟩ := hstands.active
    -- Until its turn the objective is left alone, so that as many kills are left as it stands.
    have hbefore := hturn.leaves (hbepoch ▸ hissued _ _ b hb)
    rw [hown] at hbefore hactive hsatisfied
    cases hb.symm.trans (hbefore.kept _ (Slots.find?_of_findIn? _ _ _ _ hactive) hsame)
    have hbound : h.amount - k ≤ Decimal.maxUnsigned32 := (Nat.sub_le _ _).trans h.amount_le
    have hhandle := h.handle_run (e := e₀) (nested levels) hown hbound
    rw [← hbdata, hsatisfied] at hhandle
    cases hcounts : h.counts (.dispatch event) with
    | false =>
      rw [hcounts] at hhandle
      cases hhandle
    | true =>
      by_cases hnone : h.amount - k - 1 = 0
      · exact ⟨rfl, by omega⟩
      · rw [hcounts, if_pos rfl, if_neg hnone] at hhandle
        cases hhandle

end Hunt

end Questbook
