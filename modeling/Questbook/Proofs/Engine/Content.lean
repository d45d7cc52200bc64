/-
Questbook/Proofs/Engine/Content.lean

Content keeps what its demands keep.

Conditions, events, variables and texts are trees, and a property of the engine's state is kept by
all they can do if it is kept by each single thing they may do: what `KeptByContent` lists.  Which
of the requests and which changes of objectives have to be considered is told by the demands of the
content, so that content which asks for little keeps much.

Main results: `Condition.check_keeps` for what is checked and `Action.fireEach_keeps` for what is
fired.
-/
import Questbook.Engine.Fire
import Questbook.Proofs.Engine.Demands
import Questbook.Proofs.Engine.Keeps

namespace Questbook

/-- What a player's content does besides his objectives and conversations keeps `P`. -/
structure KeptAside (p : PlayerId) (A : Set Demand) (deep : Bool) (P : Engine → Prop) : Prop where
  dice {e : Engine} (he : P e) : P { e with dice := e.dice.rest }
  place {e : Engine} (spot : Location) (block : Block) (he : P e) :
    P { e with world := e.world.place spot block }
  join {e : Engine} (avatar : Avatar) (he : P e) : P { e with world := e.world.join p avatar }
  render {e : Engine} (frames : List Frame) (he : P e) :
    P { e with world := e.world.render p frames }
  note {e : Engine} (entry : Json) (he : P e) : P { e with notes := entry :: e.notes }
  later {e : Engine} {tasks : List (Nat × Task)} {agenda : Agenda Task} (he : P e)
    (hown : ∀ t ∈ tasks, t.2.Of p A deep) (hagenda : e.agenda.afterAll? tasks = some agenda) :
    P { e with agenda }

/-- Everything that content which keeps within `A` may do for a player keeps `P`, and halts as `H`
allows. -/
structure KeptByContent (n : Nested) (p : PlayerId) (A : Set Demand) (deep : Bool)
    (P : Engine → Prop) (H : Halt → Prop) : Prop extends KeptAside p A deep P where
  ask (r : Request) (hr : .request r ∈ A) : (n.ask p r).Keeps P H
  start (id : ObjectId) (hr : .request (.startObjective id) ∈ A) :
    (Objectives.start p id).Keeps P H
  cancel (id : ObjectId) (hr : .request (.cancelObjective id) ∈ A) :
    (Objectives.cancel p id).Keeps P H
  complete (id : ObjectId) (hr : .request (.completeObjective id) ∈ A) :
    (Objectives.complete n p id).Keeps P H
  overflow : H .overflow

variable {n : Nested} {p : PlayerId} {A : Set Demand} {deep : Bool} {P : Engine → Prop}
  {H : Halt → Prop}

theorem KeptByContent.keeps_later (hP : KeptByContent n p A deep P H) {tasks : List (Nat × Task)}
    (hown : ∀ t ∈ tasks, t.2.Of p A deep) : (Act.later tasks).Keeps P H := by
  refine Act.keeps_get_bind fun e he => ?_
  split
  · rename_i agenda hagenda
    exact hP.later he hown hagenda
  · exact hP.overflow

/-! ### Evaluation -/

theorem Script.run_keeps (hP : KeptByContent n p A deep P H) {α : Type} {script : Script α}
    (hA : script.demands ⊆ A) : (script.run (n.ask p)).Keeps P H := by
  induction script with
  | done a => exact Eval.keeps_pure a
  | fail e => exact Eval.keeps_throw e
  | ask r next ih =>
    simp only [Script.demands, Set.union_subset_iff, Set.singleton_subset_iff,
      Set.iUnion_subset_iff] at hA
    exact Eval.keeps_bind (Eval.keeps_lift (hP.ask r hA.1)) fun answer => ih answer (hA.2 answer)

theorem Variable.value_keeps (hP : KeptByContent n p A deep P H) {v : Variable}
    (hA : v.demands ⊆ A) : (v.value n p).Keeps P H := by
  cases v with
  | balance => exact Eval.keeps_map _ (Eval.keeps_balance p)
  | missing target => exact Eval.keeps_bind (Eval.keeps_balance p) fun _ => Eval.keeps_pure _
  | objective id property => exact Eval.keeps_bind Eval.keeps_get fun _ => Eval.keeps_pure _
  | player field =>
    cases field with
    | name => exact Eval.keeps_map _ (Eval.keeps_avatar p)
    | uuid => exact Eval.keeps_pure _
  | location field => exact Eval.keeps_bind (Eval.keeps_avatar p) fun _ => Eval.keeps_pure _
  | custom script => exact Script.run_keeps hP hA

theorem Variable.shown_keeps (hP : KeptByContent n p A deep P H) {v : Variable}
    (hA : v.demands ⊆ A) : (v.shown n p).Keeps P H := by
  refine Act.keeps_bind (Variable.value_keeps hP hA) fun r => ?_
  rcases r with err | text <;> exact Act.keeps_pure _

theorem Quantity.resolve_keeps (hP : KeptByContent n p A deep P H) {q : Quantity}
    (hA : q.demands ⊆ A) : (q.resolve n p).Keeps P H := by
  cases q with
  | constant x => exact Eval.keeps_pure x
  | var v =>
    refine Eval.keeps_bind (Variable.value_keeps hP hA) fun text => ?_
    split
    · exact Eval.keeps_pure _
    · exact Eval.keeps_throw _

theorem RichText.render_keeps (hP : KeptByContent n p A deep P H) {text : RichText}
    (hA : text.demands ⊆ A) : (text.render n p).Keeps P H := by
  induction text with
  | nil => exact Act.keeps_pure _
  | cons segment rest ih =>
    cases segment with
    | literal text => exact Act.keeps_bind (ih hA) fun _ => Act.keeps_pure _
    | reference v =>
      obtain ⟨hv, hrest⟩ := Set.union_subset_iff.1 hA
      exact Act.keeps_bind (Variable.shown_keeps hP hv) fun _ =>
        Act.keeps_bind (ih hrest) fun _ => Act.keeps_pure _

theorem holdsAll_keeps (items : List Stack) : (holdsAll p items).Keeps P H := by
  induction items with
  | nil => exact Eval.keeps_pure _
  | cons stack rest ih =>
    refine Eval.keeps_bind (Eval.keeps_avatar p) fun a => ?_
    split
    · exact Eval.keeps_pure _
    · exact ih

theorem KeptByContent.keeps_draw (hP : KeptByContent n p A deep P H) : Eval.draw.Keeps P H :=
  Eval.keeps_bind Eval.keeps_get fun _ =>
    Eval.keeps_bind (Eval.keeps_lift (Act.keeps_modify fun _ he => hP.dice he)) fun _ =>
      Eval.keeps_pure _

mutual

theorem Condition.check_keeps (hP : KeptByContent n p A deep P H) {c : Condition}
    (hA : c.demands ⊆ A) : (c.check n p).Keeps P H := by
  match c with
  | .sneaking => exact Eval.keeps_map _ (Eval.keeps_avatar p)
  | .facing direction => exact Eval.keeps_bind (Eval.keeps_avatar p) fun _ => Eval.keeps_pure _
  | .compound any parts =>
    rw [Condition.demands] at hA
    exact Condition.checkParts_keeps hP any hA
  | .holding items => exact holdsAll_keeps items
  | .objective id => exact Eval.keeps_bind Eval.keeps_get fun _ => Eval.keeps_pure _
  | .chance probability =>
    rw [Condition.demands, Set.union_subset_iff] at hA
    exact Eval.keeps_bind (Quantity.resolve_keeps hP hA.1) fun _ =>
      Eval.keeps_bind hP.keeps_draw fun _ => Eval.keeps_pure _
  | .stat name level exactly =>
    exact Eval.keeps_bind Eval.keeps_needStats fun _ =>
      Eval.keeps_bind (Eval.keeps_avatar p) fun _ => Eval.keeps_pure _
  | .money amount =>
    rw [Condition.demands] at hA
    exact Eval.keeps_bind (Quantity.resolve_keeps hP hA) fun _ =>
      Eval.keeps_bind (Eval.keeps_balance p) fun _ => Eval.keeps_pure _
  | .custom script =>
    rw [Condition.demands] at hA
    exact Script.run_keeps hP hA

theorem Condition.checkParts_keeps (hP : KeptByContent n p A deep P H) (any : Bool)
    {parts : List (Check Condition)} (hA : Condition.demandsOf parts ⊆ A) :
    (Condition.checkParts n p any parts).Keeps P H := by
  match parts with
  | [] => exact Eval.keeps_pure _
  | ⟨_, negated, target⟩ :: rest =>
    rw [Condition.demandsOf, Set.union_subset_iff] at hA
    refine Eval.keeps_bind (Condition.check_keeps hP hA.1) fun met => ?_
    split
    · exact Eval.keeps_pure _
    · exact Condition.checkParts_keeps hP any hA.2

end

theorem Check.evaluate_keeps (hP : KeptByContent n p A deep P H) {c : ConditionRef}
    (hA : c.target.demands ⊆ A) : (c.evaluate n p).Keeps P H :=
  Eval.keeps_bind (Condition.check_keeps hP hA) fun _ => Eval.keeps_pure _

theorem Check.holds_keeps (hP : KeptByContent n p A deep P H) {c : ConditionRef}
    (hA : c.target.demands ⊆ A) : (c.holds n p).Keeps P H := by
  refine Act.keeps_bind (Check.evaluate_keeps hP hA) fun r => ?_
  rcases r with err | met <;> exact Act.keeps_pure _

theorem allHold_keeps (hP : KeptByContent n p A deep P H) {conditions : List ConditionRef}
    (hA : Condition.demandsOf conditions ⊆ A) : (allHold n p conditions).Keeps P H := by
  induction conditions with
  | nil => exact Act.keeps_pure _
  | cons c rest ih =>
    rw [Condition.demandsOf, Set.union_subset_iff] at hA
    refine Act.keeps_bind (Check.holds_keeps hP hA.1) fun met => ?_
    split
    · exact ih hA.2
    · exact Act.keeps_pure _

theorem Goal.handle_keeps (hP : KeptByContent n p A deep P H) {goal : Goal} (hA : goal.demands ⊆ A)
    (data : Json) (event : GameEvent) : (goal.handle n p data event).Keeps P H := by
  cases goal with
  | arrow target range =>
    simp only [Goal.handle]
    split
    · split <;> exact Eval.keeps_pure _
    · exact Eval.keeps_throw _
  | reach target range =>
    simp only [Goal.handle]
    split
    · split
      · exact Eval.keeps_bind (Quantity.resolve_keeps hP hA) fun _ => Eval.keeps_pure _
      · exact Eval.keeps_pure _
    · exact Eval.keeps_throw _
  | kill entities amount =>
    simp only [Goal.handle]
    split
    · exact Eval.keeps_throw _
    · split
      · split <;> exact Eval.keeps_pure _
      · exact Eval.keeps_pure _
  | custom goal =>
    simp only [Goal.demands, Set.iUnion_subset_iff, Set.union_subset_iff] at hA
    simp only [Goal.handle]
    split
    · exact Script.run_keeps hP (hA data event).1
    · exact Eval.keeps_throw _

theorem Recheck.passes_keeps (hP : KeptByContent n p A deep P H) {check : Recheck}
    (hA : check.demands ⊆ A) : (check.passes n p).Keeps P H := by
  cases check with
  | landing target range projectile reported =>
    exact Eval.keeps_bind Eval.keeps_get fun _ =>
      Eval.keeps_bind (Quantity.resolve_keeps hP hA) fun _ => Eval.keeps_pure _
  | custom script => exact Script.run_keeps hP hA

/-! ### Single actions -/

namespace Eval

theorem changeAvatar_keeps (hP : KeptByContent n p A deep P H) (f : Avatar → Avatar) :
    (changeAvatar p f).Keeps P H :=
  keeps_bind (keeps_avatar p) fun _ =>
    keeps_lift (Act.keeps_modify fun _ he => hP.join _ he)

theorem pull_keeps (hP : KeptByContent n p A deep P H) (spot : Location) (switch : Switch) :
    (pull spot switch).Keeps P H := by
  refine keeps_bind keeps_get fun e => ?_
  split
  · exact keeps_pure _
  · split
    · exact keeps_lift (Act.keeps_modify fun _ he => hP.place spot _ he)
    · exact keeps_pure _

theorem give_keeps (hP : KeptByContent n p A deep P H) (items : List Stack) : (give p items).Keeps P
    H := by
  induction items with
  | nil => exact keeps_pure _
  | cons stack rest ih =>
    refine keeps_bind (keeps_avatar p) fun a => ?_
    split
    · exact keeps_bind (keeps_lift (Act.keeps_halt hP.overflow)) fun _ => ih
    · exact keeps_bind (keeps_lift (Act.keeps_modify fun _ he => hP.join _ he)) fun _ => ih

theorem take_keeps (hP : KeptByContent n p A deep P H) (items : List Stack) : (take p items).Keeps P
    H := by
  induction items with
  | nil => exact keeps_pure _
  | cons stack rest ih => exact keeps_bind (changeAvatar_keeps hP _) fun _ => ih

theorem transfer_keeps (hP : KeptByContent n p A deep P H) (amount : Float) :
    (transfer p amount).Keeps P H :=
  keeps_bind keeps_needEconomy fun _ => changeAvatar_keeps hP _

theorem notify_keeps (hP : KeptByContent n p A deep P H) (channel : Channel) {text : RichText}
    (hA : text.demands ⊆ A) : (notify n p channel text).Keeps P H := by
  refine keeps_bind keeps_get fun e => ?_
  split
  · exact keeps_bind (keeps_lift (RichText.render_keeps hP hA)) fun _ =>
      keeps_lift (Act.keeps_modify fun _ he => hP.render _ he)
  · exact keeps_throw _

theorem found_keeps (result : Except ProgressError Unit) : (found result).Keeps P H := by
  unfold found
  split
  · exact keeps_throw _
  · exact keeps_pure _

theorem changeObjective_keeps (hP : KeptByContent n p A deep P H) {action : ObjectiveChange}
    {id : ObjectId} (hA : .request (action.request id) ∈ A) :
    (changeObjective n p action id).Keeps P H := by
  cases action with
  | start => exact keeps_bind (keeps_lift (hP.start id hA)) found_keeps
  | cancel => exact keeps_bind (keeps_lift (hP.cancel id hA)) found_keeps
  | complete => exact keeps_bind (keeps_lift (hP.complete id hA)) found_keeps

end Eval

/-! ### Events -/

mutual

theorem Action.perform_keeps (hP : KeptByContent n p A deep P H) {a : Action}
    (hA : a.demands deep ⊆ A) : (a.perform n p).Keeps P H := by
  match a with
  | .lever spot switch => exact Eval.pull_keeps hP spot switch
  | .folder delay events =>
    simp only [Action.demands] at hA
    simp only [Action.perform]
    split
    · rename_i hdelay
      exact Eval.keeps_lift (Action.fireEach_keeps hP fun d hd => hA ⟨.inl hdelay, hd⟩)
    · have hown : ∀ t ∈ [(delay, Task.fire p events)], t.2.Of p A deep := by
        intro t ht
        obtain rfl := List.mem_singleton.1 ht
        exact ⟨rfl, fun hdeep d hd => hA ⟨.inr hdeep, hd⟩⟩
      exact Eval.keeps_lift (hP.keeps_later hown)
  | .objective action id =>
    simp only [Action.demands, Set.singleton_subset_iff] at hA
    exact Eval.changeObjective_keeps hP hA
  | .notify channel text =>
    rw [Action.demands] at hA
    exact Eval.notify_keeps hP channel hA
  | .give items => exact Eval.give_keeps hP items
  | .take items => exact Eval.take_keeps hP items
  | .money amount =>
    rw [Action.demands] at hA
    exact Eval.keeps_bind (Quantity.resolve_keeps hP hA) fun x => Eval.transfer_keeps hP x
  | .custom script =>
    rw [Action.demands] at hA
    exact Script.run_keeps hP hA

theorem Action.fire_keeps (hP : KeptByContent n p A deep P H) {event : Gated Action}
    (hconditions : Condition.demandsOf event.conditions ⊆ A)
    (hcontent : event.content.demands deep ⊆ A) : (Action.fire n p event).Keeps P H := by
  match event with
  | ⟨conditions, content⟩ =>
    refine Act.keeps_bind (allHold_keeps hP hconditions) fun met => ?_
    split
    · exact Act.keeps_bind (Act.keeps_discard (Action.perform_keeps hP hcontent)) fun _ =>
        Act.keeps_pure _
    · exact Act.keeps_pure _

theorem Action.fireEach_keeps (hP : KeptByContent n p A deep P H)
    {events : List (Ref (Gated Action))} (hA : Action.demandsOf deep events ⊆ A) :
    (Action.fireEach n p events).Keeps P H := by
  match events with
  | [] => exact Act.keeps_pure _
  | ⟨_, ⟨conditions, content⟩⟩ :: rest =>
    rw [Action.demandsOf, Set.union_subset_iff, Set.union_subset_iff] at hA
    exact Act.keeps_bind (Act.keeps_discard (Action.fire_keeps hP hA.1.1 hA.1.2)) fun _ =>
      Action.fireEach_keeps hP hA.2

end

end Questbook
