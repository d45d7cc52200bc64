/-
Questbook/Proofs/Engine/Mirror.lean

The same content in two engines.

Two engines may go together, under certain names, although they are not the same.  `a` and `a'` are
mirrors from there if the engines still go together after both, perhaps under more names, and the
answers are related.  Where a step holds a slot, an epoch or a session it may hold other numbers in
the other engine, so that the rules are about two steps and about answers that are related.

Whatever content does for a player, it does in both engines, as long as it reads the same in both of
them and each single thing that it may do leads to engines that go together.  `MirroredByContent`
lists these things.

Only runs that answer are looked at: the second engine answers where the first one does.

Main results: `Condition.check_mirrored` for what is checked and `Action.fireEach_mirrored` for what
is fired.
-/
import Questbook.Engine.Fire
import Questbook.Proofs.Engine.Keeps
import Questbook.Proofs.Engine.Twin

namespace Questbook

variable {α β γ δ : Type} {R : Names → Engine → Engine → Prop} {N : Names} {e e' : Engine}

/-! ### Steps -/

/-- Whatever `a` answers from `e`, `a'` answers from `e'`: what they have come to goes together, and
the answers are as `V` says. -/
def Act.Mirrors (R : Names → Engine → Engine → Prop) (N : Names) (e e' : Engine)
    (V : Names → α → β → Prop) (a : Act α) (a' : Act β) : Prop :=
  ∀ x e₁, a.run e = .ok (x, e₁) → ∃ N' x' e₁', N ≤ N' ∧ a'.run e' = .ok (x', e₁') ∧
    R N' e₁ e₁' ∧ V N' x x'

/-- The same answer. -/
abbrev Same : Names → α → α → Prop := fun _ x x' => x' = x

/-- A step that answers the same in engines that go together, and leads to such. -/
def Act.Mirrored (R : Names → Engine → Engine → Prop) (a : Act α) : Prop :=
  ∀ N e e', R N e e' → Act.Mirrors R N e e' Same a a

namespace Act

variable {a : Act α} {a' : Act β} {f : α → Act γ} {f' : β → Act δ} {V : Names → α → β → Prop}
  {W : Names → γ → δ → Prop}

theorem mirrors_pure {x : α} {x' : β} (h : R N e e') (hV : V N x x') :
    Mirrors R N e e' V (pure x) (pure x') := by
  rintro y e₁ hrun
  cases hrun
  exact ⟨N, x', e', le_rfl, rfl, h, hV⟩

/-- A step that halts answers nothing. -/
theorem mirrors_halt (h : Halt) : Mirrors R N e e' V (halt h) a' := fun _ _ hrun => nomatch hrun

/-- A change on both sides, under names that may be more. -/
theorem mirrors_change {g g' : Engine → Engine} {N' : Names} {V : Names → Unit → Unit → Prop}
    (hN : N ≤ N') (h : R N' (g e) (g' e')) (hV : V N' () ()) :
    Mirrors R N e e' V (modify g : Act Unit) (modify g') := by
  rintro y e₁ hrun
  cases hrun
  exact ⟨N', (), g' e', hN, rfl, h, hV⟩

theorem mirrors_modify {g g' : Engine → Engine} (h : R N (g e) (g' e')) :
    Mirrors R N e e' Same (modify g : Act Unit) (modify g') :=
  mirrors_change le_rfl h rfl

/-- Composite steps: the second parts may rely on what the first ones have come to. -/
theorem mirrors_bind (ha : Mirrors R N e e' V a a')
    (hf : ∀ N' x x' e₁ e₁', N ≤ N' → a.run e = .ok (x, e₁) → R N' e₁ e₁' → V N' x x' →
      Mirrors R N' e₁ e₁' W (f x) (f' x')) : Mirrors R N e e' W (a >>= f) (a' >>= f') := by
  intro y e₂ hrun
  obtain ⟨x, e₁, hrun₁, hrun₂⟩ := exists_of_run_bind hrun
  obtain ⟨N₁, x', e₁', hN₁, hrun₁', hrel, hV⟩ := ha x e₁ hrun₁
  obtain ⟨N₂, y', e₂', hN₂, hrun₂', hrel₂, hW⟩ := hf N₁ x x' e₁ e₁' hN₁ hrun₁ hrel hV y e₂ hrun₂
  exact ⟨N₂, y', e₂', hN₁.trans hN₂, (run_bind_of_run hrun₁').trans hrun₂', hrel₂, hW⟩

theorem mirrors_get_bind {f f' : Engine → Act γ} {V : Names → γ → γ → Prop}
    (h : Mirrors R N e e' V (f e) (f' e')) : Mirrors R N e e' V (get >>= f) (get >>= f') := h

theorem Mirrors.mono {U : Names → α → β → Prop} (h : Mirrors R N e e' V a a')
    (hU : ∀ N' x x', V N' x x' → U N' x x') : Mirrors R N e e' U a a' := by
  intro x e₁ hrun
  obtain ⟨N', x', e₁', hN, hrun', hrel, hV⟩ := h x e₁ hrun
  exact ⟨N', x', e₁', hN, hrun', hrel, hU _ _ _ hV⟩

theorem mirrors_map {f : α → γ} {f' : β → δ} (h : Mirrors R N e e' V a a')
    (hf : ∀ N' x x', V N' x x' → W N' (f x) (f' x')) :
    Mirrors R N e e' W (f <$> a) (f' <$> a') := by
  rw [map_eq_pure_bind, map_eq_pure_bind]
  exact mirrors_bind h fun _ _ _ _ _ _ _ hrel hV => mirrors_pure hrel (hf _ _ _ hV)

theorem mirrors_discard (h : Mirrors R N e e' V a a') :
    Mirrors R N e e' Same (discard a) (discard a') :=
  mirrors_map h fun _ _ _ _ => rfl

theorem mirrored_pure (x : α) : Mirrored R (pure x) := fun _ _ _ h => mirrors_pure h rfl

theorem mirrored_halt (h : Halt) : Mirrored R (halt h : Act α) := fun _ _ _ _ => mirrors_halt h

theorem mirrored_bind (ha : Mirrored R a) (hf : ∀ x, Mirrored R (f x)) : Mirrored R (a >>= f) := by
  refine fun N e e' h => mirrors_bind (ha N e e' h) ?_
  rintro N' x x' e₁ e₁' - - hrel rfl
  exact hf x' N' e₁ e₁' hrel

/-- A step that goes on from the state it finds. -/
theorem mirrored_get_bind {f : Engine → Act γ}
    (hf : ∀ N e e', R N e e' → Mirrors R N e e' Same (f e) (f e')) : Mirrored R (get >>= f) := hf

theorem mirrored_map (f : α → γ) (ha : Mirrored R a) : Mirrored R (f <$> a) := by
  rw [map_eq_pure_bind]
  exact mirrored_bind ha fun x => mirrored_pure (f x)

theorem mirrored_discard (ha : Mirrored R a) : Mirrored R (discard a) := mirrored_map _ ha

theorem mirrored_modify {g : Engine → Engine}
    (h : ∀ N e e', R N e e' → ∃ N', N ≤ N' ∧ R N' (g e) (g e')) :
    Mirrored R (modify g : Act Unit) := by
  intro N e e' hrel
  obtain ⟨N', hN', hrel'⟩ := h N e e' hrel
  exact mirrors_change hN' hrel' rfl

end Act

/-! ### Evaluations -/

/-- An evaluation that comes to the same in engines that go together, be it a failure. -/
def Eval.Mirrored (R : Names → Engine → Engine → Prop) (a : Eval α) : Prop :=
  Act.Mirrored R (ExceptT.run a)

namespace Eval

variable {a : Eval α} {f : α → Eval β}

theorem mirrored_pure (x : α) : (pure x : Eval α).Mirrored R := Act.mirrored_pure _

theorem mirrored_throw (err : EvalError) : (throw err : Eval α).Mirrored R := Act.mirrored_pure _

/-- Composite evaluations: the second part may rely on what the first one has come to. -/
theorem mirrors_bind (ha : a.Mirrored R) (h : R N e e')
    (hf : ∀ N' x e₁ e₁', StateT.run (ExceptT.run a) e = .ok (.ok x, e₁) → R N' e₁ e₁' →
      Act.Mirrors R N' e₁ e₁' Same (ExceptT.run (f x)) (ExceptT.run (f x))) :
    Act.Mirrors R N e e' Same (ExceptT.run (a >>= f)) (ExceptT.run (a >>= f)) := by
  rw [ExceptT.run_bind]
  refine Act.mirrors_bind (ha N e e' h) ?_
  rintro N' r r' e₁ e₁' - hrun hrel rfl
  rcases r' with err | x
  · exact Act.mirrors_pure hrel rfl
  · exact hf N' x e₁ e₁' hrun hrel

theorem mirrored_bind (ha : a.Mirrored R) (hf : ∀ x, (f x).Mirrored R) : (a >>= f).Mirrored R :=
  fun _ _ _ h => mirrors_bind ha h fun N' x e₁ e₁' _ hrel => hf x N' e₁ e₁' hrel

/-- An evaluation that goes on from the state it finds. -/
theorem mirrored_get_bind {f : Engine → Eval β}
    (hf : ∀ N e e', R N e e' →
      Act.Mirrors R N e e' Same (ExceptT.run (f e)) (ExceptT.run (f e'))) :
    (get >>= f).Mirrored R := hf

theorem mirrored_map (f : α → β) (ha : a.Mirrored R) : (f <$> a).Mirrored R := by
  rw [map_eq_pure_bind]
  exact mirrored_bind ha fun x => mirrored_pure (f x)

/-- A step of the engine is an evaluation that does not fail. -/
theorem mirrored_lift {a : Act α} (ha : Act.Mirrored R a) : (liftM a : Eval α).Mirrored R :=
  Act.mirrored_map _ ha

theorem mirrored_ofExcept (r : Except EvalError α) : (ofExcept r).Mirrored R := by
  rcases r with err | x
  · exact mirrored_throw err
  · exact mirrored_pure x

end Eval

/-! ### What content may do -/

/-- What a player's content reads besides his objectives' progress is the same in engines that go
together, and what it changes leads to engines that go together. -/
structure MirroredAside (p : PlayerId) (A : Set Demand) (R : Names → Engine → Engine → Prop) :
    Prop where
  packages {N : Names} {e e' : Engine} (h : R N e e') : e'.packages = e.packages
  integrations {N : Names} {e e' : Engine} (h : R N e e') : e'.integrations = e.integrations
  tick {N : Names} {e e' : Engine} (h : R N e e') : e'.agenda.tick = e.agenda.tick
  world {N : Names} {e e' : Engine} (h : R N e e') : e.world.Twin p e'.world
  isActive {N : Names} {e e' : Engine} (h : R N e e') (id : ObjectId) :
    e'.progress.isActive p id = e.progress.isActive p id
  property? {N : Names} {e e' : Engine} (h : R N e e') (id : ObjectId) (name : String) :
    e'.property? p id name = e.property? p id name
  join {N : Names} {e e' : Engine} (avatar : Avatar) (h : R N e e') :
    R N { e with world := e.world.join p avatar } { e' with world := e'.world.join p avatar }
  render {N : Names} {e e' : Engine} (frames : List Frame) (h : R N e e') :
    R N { e with world := e.world.render p frames } { e' with world := e'.world.render p frames }
  note {N : Names} {e e' : Engine} (entry : Json) (h : R N e e') :
    R N { e with notes := entry :: e.notes } { e' with notes := entry :: e'.notes }
  /-- The events of a folder are put off. -/
  later {N : Names} {e e' : Engine} {delay : Nat} {events : List EventRef} (h : R N e e')
    (hA : Action.demandsOf true events ⊆ A) :
    Act.Mirrors R N e e' Same (Act.later [(delay, .fire p events)])
      (Act.later [(delay, .fire p events)])
  pull (spot : Location) (switch : Switch) : (Eval.pull spot switch).Mirrored R
  /-- The dice are rolled for a chance. -/
  chance {N : Names} {e e' e₀ : Engine} {n : Nested} {q : Quantity} {limit : Float} (h : R N e e')
    (hA : (Condition.chance q).demands ⊆ A)
    (hrun : StateT.run (ExceptT.run (q.resolve n p)) e₀ = .ok (.ok limit, e)) :
    Act.Mirrors R N e e' Same (ExceptT.run (do pure (decide ((← Eval.draw) < limit))))
      (ExceptT.run (do pure (decide ((← Eval.draw) < limit))))

/-- Everything that content which keeps within `A` may do for a player is done in both engines. -/
structure MirroredByContent (n : Nested) (p : PlayerId) (A : Set Demand)
    (R : Names → Engine → Engine → Prop) : Prop extends MirroredAside p A R where
  fire {events : List EventRef} (hA : Action.demandsOf true events ⊆ A) :
    Act.Mirrored R (n.fire p events)
  ask (r : Request) : Act.Mirrored R (n.ask p r)
  start (id : ObjectId) : Act.Mirrored R (Objectives.start p id)
  cancel (id : ObjectId) : Act.Mirrored R (Objectives.cancel p id)
  complete (id : ObjectId) : Act.Mirrored R (Objectives.complete n p id)

variable {n : Nested} {p : PlayerId} {A : Set Demand}

theorem Act.mirrored_objective (hP : MirroredAside p A R) (id : ObjectId) :
    Mirrored R (objective id) := by
  refine mirrored_get_bind fun N e e' h => ?_
  rw [hP.packages h]
  exact mirrors_pure h rfl

theorem Act.mirrored_render (hP : MirroredAside p A R) (fs : List Frame) :
    Mirrored R (changeWorld (·.render p fs)) :=
  mirrored_modify fun N _ _ h => ⟨N, le_rfl, hP.render fs h⟩

theorem Act.mirrored_join (hP : MirroredAside p A R) (a : Avatar) :
    Mirrored R (changeWorld (·.join p a)) :=
  mirrored_modify fun N _ _ h => ⟨N, le_rfl, hP.join a h⟩

theorem Act.mirrored_note (hP : MirroredAside p A R) (entry : Json) : Mirrored R (note entry) :=
  mirrored_modify fun N _ _ h => ⟨N, le_rfl, hP.note entry h⟩

theorem Eval.mirrored_avatar (hP : MirroredAside p A R) : (avatar p).Mirrored R := by
  refine mirrored_get_bind fun N e e' h => ?_
  rw [(hP.world h).avatar_eq]
  exact mirrored_ofExcept _ N e e' h

theorem Eval.mirrored_changeAvatar (hP : MirroredAside p A R) (f : Avatar → Avatar) :
    (changeAvatar p f).Mirrored R :=
  mirrored_bind (mirrored_avatar hP) fun _ => mirrored_lift (Act.mirrored_join hP _)

theorem Eval.mirrored_needEconomy (hP : MirroredAside p A R) : needEconomy.Mirrored R := by
  refine mirrored_get_bind fun N e e' h => ?_
  rw [hP.integrations h]
  split
  · exact mirrored_pure _ N e e' h
  · exact mirrored_throw _ N e e' h

theorem Eval.mirrored_needStats (hP : MirroredAside p A R) : needStats.Mirrored R := by
  refine mirrored_get_bind fun N e e' h => ?_
  rw [hP.integrations h]
  split
  · exact mirrored_pure _ N e e' h
  · exact mirrored_throw _ N e e' h

theorem Eval.mirrored_balance (hP : MirroredAside p A R) : (balance p).Mirrored R := by
  refine mirrored_bind (mirrored_needEconomy hP) fun _ => mirrored_get_bind fun N e e' h => ?_
  rw [(hP.world h).balance]
  exact mirrored_ofExcept _ N e e' h

/-! ### Variables, numbers and texts -/

theorem Script.run_mirrored (hP : MirroredByContent n p A R) (script : Script α) :
    (script.run (n.ask p)).Mirrored R := by
  induction script with
  | done a => exact Eval.mirrored_pure a
  | fail e => exact Eval.mirrored_throw e
  | ask r next ih => exact Eval.mirrored_bind (Eval.mirrored_lift (hP.ask r)) ih

theorem Variable.value_mirrored (hP : MirroredByContent n p A R) (v : Variable) :
    (v.value n p).Mirrored R := by
  have haside := hP.toMirroredAside
  cases v with
  | balance => exact Eval.mirrored_map _ (Eval.mirrored_balance haside)
  | missing target =>
    exact Eval.mirrored_bind (Eval.mirrored_balance haside) fun _ => Eval.mirrored_pure _
  | objective id property =>
    refine Eval.mirrored_get_bind fun N e e' h => ?_
    rw [hP.property? h]
    exact Eval.mirrored_pure _ N e e' h
  | player field =>
    cases field with
    | name => exact Eval.mirrored_map _ (Eval.mirrored_avatar haside)
    | uuid => exact Eval.mirrored_pure _
  | location field =>
    exact Eval.mirrored_bind (Eval.mirrored_avatar haside) fun _ => Eval.mirrored_pure _
  | custom script => exact Script.run_mirrored hP script

theorem Variable.shown_mirrored (hP : MirroredByContent n p A R) (v : Variable) :
    Act.Mirrored R (v.shown n p) := by
  refine Act.mirrored_bind (Variable.value_mirrored hP v) fun r => ?_
  rcases r with err | text <;> exact Act.mirrored_pure _

theorem Quantity.resolve_mirrored (hP : MirroredByContent n p A R) (q : Quantity) :
    (q.resolve n p).Mirrored R := by
  cases q with
  | constant x => exact Eval.mirrored_pure x
  | var v =>
    refine Eval.mirrored_bind (Variable.value_mirrored hP _) fun text => ?_
    split
    · exact Eval.mirrored_pure _
    · exact Eval.mirrored_throw _

theorem RichText.render_mirrored (hP : MirroredByContent n p A R) (text : RichText) :
    Act.Mirrored R (text.render n p) := by
  induction text with
  | nil => exact Act.mirrored_pure _
  | cons segment rest ih =>
    cases segment with
    | literal text => exact Act.mirrored_bind ih fun _ => Act.mirrored_pure _
    | reference v =>
      exact Act.mirrored_bind (Variable.shown_mirrored hP _) fun _ =>
        Act.mirrored_bind ih fun _ => Act.mirrored_pure _

/-! ### Conditions -/

theorem holdsAll_mirrored (hP : MirroredByContent n p A R) (items : List Stack) :
    (holdsAll p items).Mirrored R := by
  induction items with
  | nil => exact Eval.mirrored_pure _
  | cons stack rest ih =>
    refine Eval.mirrored_bind (Eval.mirrored_avatar hP.toMirroredAside) fun a => ?_
    split
    · exact Eval.mirrored_pure _
    · exact ih

mutual

theorem Condition.check_mirrored (hP : MirroredByContent n p A R) {c : Condition}
    (hA : c.demands ⊆ A) :
    (c.check n p).Mirrored R := by
  have haside := hP.toMirroredAside
  match c with
  | .sneaking => exact Eval.mirrored_map _ (Eval.mirrored_avatar haside)
  | .facing direction =>
    exact Eval.mirrored_bind (Eval.mirrored_avatar haside) fun _ => Eval.mirrored_pure _
  | .compound any parts =>
    rw [Condition.demands] at hA
    exact Condition.checkParts_mirrored hP any hA
  | .holding items => exact holdsAll_mirrored hP items
  | .objective id =>
    refine Eval.mirrored_get_bind fun N e e' h => ?_
    rw [hP.isActive h]
    exact Eval.mirrored_pure _ N e e' h
  | .chance probability =>
    intro N e e' h
    exact Eval.mirrors_bind (Quantity.resolve_mirrored hP probability) h fun N' limit e₁ e₁' hrun
      hrel => hP.chance hrel hA hrun
  | .stat name level exactly =>
    exact Eval.mirrored_bind (Eval.mirrored_needStats haside) fun _ =>
      Eval.mirrored_bind (Eval.mirrored_avatar haside) fun _ => Eval.mirrored_pure _
  | .money amount =>
    exact Eval.mirrored_bind (Quantity.resolve_mirrored hP amount) fun _ =>
      Eval.mirrored_bind (Eval.mirrored_balance haside) fun _ => Eval.mirrored_pure _
  | .custom script => exact Script.run_mirrored hP script

theorem Condition.checkParts_mirrored (hP : MirroredByContent n p A R) (any : Bool)
    {parts : List (Check Condition)}
    (hA : Condition.demandsOf parts ⊆ A) : (Condition.checkParts n p any parts).Mirrored R := by
  match parts with
  | [] => exact Eval.mirrored_pure _
  | ⟨_, negated, target⟩ :: rest =>
    rw [Condition.demandsOf, Set.union_subset_iff] at hA
    refine Eval.mirrored_bind (Condition.check_mirrored hP hA.1) fun met => ?_
    split
    · exact Eval.mirrored_pure _
    · exact Condition.checkParts_mirrored hP any hA.2

end

theorem Check.evaluate_mirrored (hP : MirroredByContent n p A R) {c : ConditionRef}
    (hA : c.target.demands ⊆ A) :
    (c.evaluate n p).Mirrored R :=
  Eval.mirrored_bind (Condition.check_mirrored hP hA) fun _ => Eval.mirrored_pure _

theorem Check.holds_mirrored (hP : MirroredByContent n p A R) {c : ConditionRef}
    (hA : c.target.demands ⊆ A) :
    Act.Mirrored R (c.holds n p) := by
  refine Act.mirrored_bind (Check.evaluate_mirrored hP hA) fun r => ?_
  rcases r with err | met <;> exact Act.mirrored_pure _

theorem allHold_mirrored (hP : MirroredByContent n p A R) {conditions : List ConditionRef}
    (hA : Condition.demandsOf conditions ⊆ A) : Act.Mirrored R (allHold n p conditions) := by
  induction conditions with
  | nil => exact Act.mirrored_pure _
  | cons c rest ih =>
    rw [Condition.demandsOf, Set.union_subset_iff] at hA
    refine Act.mirrored_bind (Check.holds_mirrored hP hA.1) fun met => ?_
    split
    · exact ih hA.2
    · exact Act.mirrored_pure _

/-! ### Single actions -/

namespace Eval

theorem give_mirrored (hP : MirroredByContent n p A R) (items : List Stack) :
    (give p items).Mirrored R := by
  have haside := hP.toMirroredAside
  induction items with
  | nil => exact mirrored_pure _
  | cons stack rest ih =>
    refine mirrored_bind (mirrored_avatar haside) fun a => ?_
    split
    · exact mirrored_bind (mirrored_lift (Act.mirrored_halt _)) fun _ => ih
    · exact mirrored_bind (mirrored_lift (Act.mirrored_join haside _)) fun _ => ih

theorem take_mirrored (hP : MirroredByContent n p A R) (items : List Stack) :
    (take p items).Mirrored R := by
  induction items with
  | nil => exact mirrored_pure _
  | cons stack rest ih =>
    exact mirrored_bind (mirrored_changeAvatar hP.toMirroredAside _) fun _ => ih

theorem transfer_mirrored (hP : MirroredByContent n p A R) (amount : Float) :
    (transfer p amount).Mirrored R :=
  mirrored_bind (mirrored_needEconomy hP.toMirroredAside) fun _ =>
    mirrored_changeAvatar hP.toMirroredAside _

theorem notify_mirrored (hP : MirroredByContent n p A R) (channel : Channel) (text : RichText) :
    (notify n p channel text).Mirrored R := by
  refine mirrored_get_bind fun N e e' h => ?_
  rw [(hP.world h).isOnline]
  split
  · exact mirrored_bind (mirrored_lift (RichText.render_mirrored hP text))
      (fun _ => mirrored_lift (Act.mirrored_render hP.toMirroredAside _)) N e e' h
  · exact mirrored_throw _ N e e' h

theorem mirrored_found (result : Except ProgressError Unit) : (found result).Mirrored R := by
  unfold found
  split
  · exact mirrored_throw _
  · exact mirrored_pure _

theorem changeObjective_mirrored (hP : MirroredByContent n p A R) (action : ObjectiveChange)
    (id : ObjectId) :
    (changeObjective n p action id).Mirrored R := by
  cases action with
  | start => exact mirrored_bind (mirrored_lift (hP.start id)) mirrored_found
  | cancel => exact mirrored_bind (mirrored_lift (hP.cancel id)) mirrored_found
  | complete => exact mirrored_bind (mirrored_lift (hP.complete id)) mirrored_found

end Eval

/-! ### Events -/

mutual

theorem Action.perform_mirrored (hP : MirroredByContent n p A R) {a : Action}
    (hA : a.demands true ⊆ A) :
    (a.perform n p).Mirrored R := by
  match a with
  | .lever spot switch => exact hP.pull spot switch
  | .folder delay events =>
    have hevents : Action.demandsOf true events ⊆ A := by
      simp only [Action.demands] at hA
      exact fun d hd => hA ⟨.inr trivial, hd⟩
    simp only [Action.perform]
    split
    · exact Eval.mirrored_lift (Action.fireEach_mirrored hP hevents)
    · exact Eval.mirrored_lift fun N e e' h => hP.later h hevents
  | .objective action id => exact Eval.changeObjective_mirrored hP action id
  | .notify channel text => exact Eval.notify_mirrored hP channel text
  | .give items => exact Eval.give_mirrored hP items
  | .take items => exact Eval.take_mirrored hP items
  | .money amount =>
    exact Eval.mirrored_bind (Quantity.resolve_mirrored hP amount) fun x =>
      Eval.transfer_mirrored hP x
  | .custom script => exact Script.run_mirrored hP script

theorem Action.fire_mirrored (hP : MirroredByContent n p A R) {event : Gated Action}
    (hconditions : Condition.demandsOf event.conditions ⊆ A)
    (hcontent : event.content.demands true ⊆ A) : Act.Mirrored R (Action.fire n p event) := by
  match event with
  | ⟨conditions, content⟩ =>
    refine Act.mirrored_bind (allHold_mirrored hP hconditions) fun met => ?_
    split
    · exact Act.mirrored_bind (Act.mirrored_discard (Action.perform_mirrored hP hcontent))
        fun _ => Act.mirrored_pure _
    · exact Act.mirrored_pure _

theorem Action.fireEach_mirrored (hP : MirroredByContent n p A R)
    {events : List (Ref (Gated Action))}
    (hA : Action.demandsOf true events ⊆ A) : Act.Mirrored R (Action.fireEach n p events) := by
  match events with
  | [] => exact Act.mirrored_pure _
  | ⟨_, ⟨conditions, content⟩⟩ :: rest =>
    rw [Action.demandsOf, Set.union_subset_iff, Set.union_subset_iff] at hA
    exact Act.mirrored_bind (Act.mirrored_discard (Action.fire_mirrored hP hA.1.1 hA.1.2))
      fun _ => Action.fireEach_mirrored hP hA.2

end

end Questbook
