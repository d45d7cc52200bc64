/-
Questbook/Proofs/Engine/Demands.lean

What content may ask for.

A definition is data, so that all it can ever ask of the engine is read off it before it runs: the
requests of its scripts, the objectives that its events start, cancel or complete, and whether it
leaves an outcome to the dice.  Content keeps within a set `A` if its demands are a subset of `A`.

Work that a delayed folder puts off does not run where the folder does.  With `deep` the demands of
a delayed folder count all the same, which is what concerns a whole run; without it they do not,
which is what concerns a single command.
-/
import Mathlib.Data.Set.Lattice
import Questbook.Engine.Evaluate

namespace Questbook

/-- Something that content may ask for. -/
inductive Demand where
  /-- A request to the engine. -/
  | request (r : Request)
  /-- An outcome that the dice decide. -/
  | luck

/-- Everything but an outcome that the dice decide. -/
def Demand.certain : Set Demand := { d | d ≠ .luck }

/-- What can be asked for without touching anybody's progress: luck, a look at the conversation and
a note for the host. -/
def Demand.aloof : Set Demand :=
  { d | d = .luck ∨ d = .request .talkState ∨ ∃ entry, d = .request (.note entry) }

/-! ### Scripts -/

namespace Script

variable {α : Type}

/-- What a script may ask for, whatever the engine answers. -/
def demands : Script α → Set Demand
  | done _ => ∅
  | fail _ => ∅
  | ask r next => {.request r} ∪ ⋃ answer, (next answer).demands

/-- What a script may come to, whatever the engine answers. -/
def answers : Script α → Set α
  | done a => {a}
  | fail _ => ∅
  | ask _ next => ⋃ answer, (next answer).answers

end Script

/-! ### Variables, numbers and texts -/

/-- What a variable may ask for. -/
def Variable.demands : Variable → Set Demand
  | custom script => script.demands
  | _ => ∅

/-- What a number may ask for. -/
def Quantity.demands : Quantity → Set Demand
  | constant _ => ∅
  | var v => v.target.demands

/-- A probability that is not strictly between zero and one, whatever it comes to at any time and
for any player. -/
def Quantity.Certain (q : Quantity) : Prop :=
  ∀ n p e x e', (q.resolve n p).run.run e = .ok (.ok x, e') → ¬ (0 < x ∧ x < 1)

/-- What a text may ask for. -/
def RichText.demands : RichText → Set Demand
  | [] => ∅
  | .literal _ :: rest => RichText.demands rest
  | .reference v :: rest => v.target.demands ∪ RichText.demands rest

/-! ### Conditions -/

mutual

/-- What a condition may ask for. -/
def Condition.demands : Condition → Set Demand
  | .compound _ parts => Condition.demandsOf parts
  | .chance probability => probability.demands ∪ { d | d = .luck ∧ ¬ probability.Certain }
  | .money amount => amount.demands
  | .custom script => script.demands
  | .sneaking | .facing _ | .holding _ | .objective _ | .stat _ _ _ => ∅

/-- What some conditions may ask for. -/
def Condition.demandsOf : List (Check Condition) → Set Demand
  | [] => ∅
  | ⟨_, _, target⟩ :: rest => target.demands ∪ Condition.demandsOf rest

end

/-! ### Events -/

/-- The request that an `objective` event comes to. -/
def ObjectiveChange.request (id : ObjectId) : ObjectiveChange → Request
  | start => .startObjective id
  | cancel => .cancelObjective id
  | complete => .completeObjective id

mutual

/-- What an action may ask for. -/
def Action.demands (deep : Bool) : Action → Set Demand
  | .folder delay events => { d | (delay = 0 ∨ deep = true) ∧ d ∈ Action.demandsOf deep events }
  | .objective action id => {.request (action.request id)}
  | .notify _ text => text.demands
  | .money amount => amount.demands
  | .custom script => script.demands
  | .lever _ _ | .give _ | .take _ => ∅

/-- What some events may ask for. -/
def Action.demandsOf (deep : Bool) : List (Ref (Gated Action)) → Set Demand
  | [] => ∅
  | ⟨_, ⟨conditions, content⟩⟩ :: rest =>
    Condition.demandsOf conditions ∪ content.demands deep ∪ Action.demandsOf deep rest

end

mutual

/-- What is asked for now is asked for at all. -/
theorem Action.demands_mono (a : Action) : a.demands false ⊆ a.demands true := by
  match a with
  | .folder delay events =>
    simp only [Action.demands]
    rintro d ⟨hdelay, hd⟩
    exact ⟨.inr trivial, Action.demandsOf_mono events hd⟩
  | .objective _ _ | .notify _ _ | .money _ | .custom _ | .lever _ _ | .give _ | .take _ =>
    simp only [Action.demands, subset_refl]

theorem Action.demandsOf_mono (events : List (Ref (Gated Action))) :
    Action.demandsOf false events ⊆ Action.demandsOf true events := by
  match events with
  | [] => exact subset_rfl
  | ⟨_, ⟨conditions, content⟩⟩ :: rest =>
    simp only [Action.demandsOf]
    exact Set.union_subset_union
      (Set.union_subset_union subset_rfl (Action.demands_mono content))
      (Action.demandsOf_mono rest)

end

/-! ### Objectives -/

/-- What a check that was put off may ask for. -/
def Recheck.demands : Recheck → Set Demand
  | landing _ range _ _ => range.demands
  | custom script => script.demands

/-- What a goal may ask for, the checks that it puts off included. -/
def Goal.demands : Goal → Set Demand
  | arrow _ range => range.demands
  | reach _ range => range.demands
  | kill _ _ => ∅
  | custom g => ⋃ data, ⋃ event, (g.handle data event).demands ∪
      { d | ∃ progress check, (progress, .deferred check) ∈ (g.handle data event).answers ∧
        d ∈ check.demands }

/-- What an objective may ask for. -/
def Objective.demands (deep : Bool) (o : Objective) : Set Demand :=
  o.goal.demands ∪ Condition.demandsOf o.conditions ∪ Action.demandsOf deep o.events

/-- An objective that is judged without touching anybody's progress: by its goal, by the checks that
the goal puts off and by its conditions. -/
def Objective.Aloof (o : Objective) : Prop :=
  o.goal.demands ⊆ Demand.aloof ∧ Condition.demandsOf o.conditions ⊆ Demand.aloof

/-! ### Conversations -/

/-- What a line or a reply may ask for. -/
def TalkOption.demands (deep : Bool) (o : TalkOption) : Set Demand :=
  o.text.demands ∪ Condition.demandsOf o.conditions ∪ Action.demandsOf deep o.events

/-- What a conversation may ask for. -/
def Conversation.demands (deep : Bool) (c : Conversation) : Set Demand :=
  c.quester.demands ∪ Action.demandsOf deep c.finalEvents ∪
    { d | ∃ name o, c.npcOptions.find? name = some o ∧ d ∈ o.demands deep } ∪
    { d | ∃ name o, c.playerOptions.find? name = some o ∧ d ∈ o.demands deep }

/-! ### Packages and the engine -/

/-- What a definition may ask for. -/
def Kind.demands (deep : Bool) : (k : Kind) → k.Def → Set Demand
  | .condition, c => Condition.demands c
  | .event, e => Condition.demandsOf (Gated.conditions e) ∪ Action.demands deep (Gated.content e)
  | .objective, o => Objective.demands deep o
  | .var, v => Variable.demands v
  | .item, _ => ∅
  | .conversation, c => Conversation.demands deep c

/-- A definition that is evaluated without touching anybody's progress. -/
def Kind.Aloof : (k : Kind) → k.Def → Prop
  | .condition, c => Condition.demands c ⊆ Demand.aloof
  | .var, v => Variable.demands v ⊆ Demand.aloof
  | .objective, o => Objective.Aloof o
  | .event, _ => True
  | .item, _ => True
  | .conversation, _ => True

/-- The definitions of packages keep within `A`. -/
def Packages.Within (A : Set Demand) (deep : Bool) (packages : Packages) : Prop :=
  ∀ k id d, packages.get k id = .ok d → k.demands deep d ⊆ A

/-- What a task may ask for. -/
def Task.demands (deep : Bool) : Task → Set Demand
  | fire _ events => Action.demandsOf deep events
  | recheck _ _ _ check => check.demands
  | remind _ => ∅

/-- A task that content puts off on behalf of a player: the events of a delayed folder, which keep
within `A` if they count now. -/
def Task.Of (p : PlayerId) (A : Set Demand) (deep : Bool) : Task → Prop
  | fire q events => q = p ∧ (deep = true → Action.demandsOf deep events ⊆ A)
  | recheck _ _ _ _ | remind _ => False

theorem Task.Of.demands {p : PlayerId} {A : Set Demand} {t : Task} (h : t.Of p A true) :
    t.demands true ⊆ A := by
  cases t with
  | fire q events => exact h.2 rfl
  | recheck | remind => exact h.elim

end Questbook
