/-
Questbook/Proofs/Engine/Exchange.lean

Levels that may be exchanged.

All that leads out of content goes through the level below.  If two levels do the same from every
state with `P`, and lead to such states again, so does whatever runs on them: `Act.Matches` says it
of two steps and `Nested.Matches` of two levels.  `P` may speak of the definitions and of the
sessions, which content does not touch but through the level below.

Main results: `Action.fireEach_matches`, for what is fired, and `Command.perform_matches`, for what
a host may ask for other than a request and a reload.
-/
import Questbook.Proofs.Engine.Levels

namespace Questbook

variable {α β : Type} {P : Engine → Prop} {e e' : Engine} {p : PlayerId} {id : ObjectId}

/-! ### Steps -/

/-- Two steps run the same from `e`, and what they answer is as `R` says. -/
structure Act.Agrees (a b : Act α) (e : Engine) (R : α → Engine → Prop) : Prop where
  same : b.run e = a.run e
  ensures : a.Ensures e (fun _ => True) R

/-- From every state with `P` two steps do the same, and lead to states with `P`. -/
def Act.Matches (P : Engine → Prop) (a b : Act α) : Prop := ∀ e, P e → a.Agrees b e fun _ => P

namespace Act

variable {a b : Act α} {f g : α → Act β} {R : α → Engine → Prop} {R' : β → Engine → Prop}

theorem agrees_refl (h : a.Ensures e (fun _ => True) R) : a.Agrees a e R := ⟨rfl, h⟩

theorem Agrees.mono {R₁ : α → Engine → Prop} (h : a.Agrees b e R)
    (hR : ∀ x e', R x e' → R₁ x e') : a.Agrees b e R₁ :=
  ⟨h.same, h.ensures.mono fun x e' _ => hR x e'⟩

/-- Composite steps, where the second parts may rely on what the first ones have answered. -/
theorem agrees_bind (h : a.Agrees b e R)
    (hf : ∀ x e', R x e' → (f x).Agrees (g x) e' R') : (a >>= f).Agrees (b >>= g) e R' where
  same := by
    rw [StateT.run_bind, StateT.run_bind, h.same]
    cases hrun : a.run e with
    | error err => rfl
    | ok r => exact (hf r.1 r.2 (h.ensures.of_run hrun)).same
  ensures := ensures_bind h.ensures fun x e' _ hR => (hf x e' hR).ensures

theorem agrees_get_bind {f g : Engine → Act β} (h : (f e).Agrees (g e) e R') :
    (get >>= f).Agrees (get >>= g) e R' := ⟨h.same, h.ensures⟩

theorem agrees_modify_bind {c : Engine → Engine} {f g : Unit → Act β}
    (h : (f ()).Agrees (g ()) (c e) R') :
    ((modify c : Act Unit) >>= f).Agrees ((modify c : Act Unit) >>= g) e R' := ⟨h.same, h.ensures⟩

theorem agrees_objective_bind {f g : Except NotFound Objective → Act β}
    (h : (f (e.packages.get .objective id)).Agrees (g (e.packages.get .objective id)) e R') :
    (objective id >>= f).Agrees (objective id >>= g) e R' := ⟨h.same, h.ensures⟩

theorem agrees_map {h : α → β} (hab : a.Agrees b e fun x => R' (h x)) :
    (h <$> a).Agrees (h <$> b) e R' := by
  rw [map_eq_pure_bind, map_eq_pure_bind]
  exact agrees_bind hab fun _ _ hR => agrees_refl hR

theorem Matches.keeps (h : Matches P a b) : a.Keeps P fun _ => True := fun e he => (h e he).ensures

/-- A step that does not run on a level. -/
theorem matches_of_keeps (h : a.Keeps P fun _ => True) : Matches P a a :=
  fun e he => agrees_refl (h e he)

theorem matches_pure (x : α) : Matches P (pure x) (pure x) := matches_of_keeps (keeps_pure x)

theorem matches_bind (ha : Matches P a b) (hf : ∀ x, Matches P (f x) (g x)) :
    Matches P (a >>= f) (b >>= g) :=
  fun e he => agrees_bind (ha e he) fun x e' => hf x e'

theorem matches_get_bind {f g : Engine → Act β}
    (hf : ∀ e, P e → (f e).Agrees (g e) e fun _ => P) : Matches P (get >>= f) (get >>= g) :=
  fun e he => agrees_get_bind (hf e he)

theorem matches_map (h : α → β) (ha : Matches P a b) : Matches P (h <$> a) (h <$> b) :=
  fun e he => agrees_map (ha e he)

theorem matches_discard (ha : Matches P a b) : Matches P (discard a) (discard b) := matches_map _ ha

end Act

/-! ### Evaluations -/

/-- From every state with `P` two evaluations do the same, be it to fail, and lead to states
with `P`. -/
def Eval.Matches (P : Engine → Prop) (a b : Eval α) : Prop :=
  Act.Matches P (ExceptT.run a) (ExceptT.run b)

namespace Eval

variable {a b : Eval α} {f g : α → Eval β}

theorem matches_of_keeps (h : a.Keeps P fun _ => True) : Matches P a a := Act.matches_of_keeps h

theorem matches_pure (x : α) : Matches P (pure x : Eval α) (pure x) := Act.matches_pure _

theorem matches_bind (ha : Matches P a b) (hf : ∀ x, Matches P (f x) (g x)) :
    Matches P (a >>= f) (b >>= g) := by
  unfold Matches
  rw [ExceptT.run_bind, ExceptT.run_bind]
  refine Act.matches_bind ha fun r => ?_
  rcases r with err | x
  · exact Act.matches_pure _
  · exact hf x

/-- A step of the engine is an evaluation that does not fail. -/
theorem matches_lift {a b : Act α} (ha : Act.Matches P a b) :
    Matches P (liftM a : Eval α) (liftM b) :=
  Act.matches_map _ ha

end Eval

/-! ### Levels -/

/-- A change that touches neither definitions nor sessions. -/
structure Engine.Besides (e e' : Engine) : Prop where
  registry : e'.registry = e.registry
  packages : e'.packages = e.packages
  defaultScreen : e'.defaultScreen = e.defaultScreen
  sessions : e'.sessions = e.sessions

/-- What is said of definitions and sessions only: whatever touches neither leaves it alone. -/
def KeptBesides (P : Engine → Prop) : Prop := ∀ ⦃e e' : Engine⦄, P e → e.Besides e' → P e'

/-- Two levels do the same from every state with `P`, which is said of definitions and sessions. -/
structure Nested.Matches (P : Engine → Prop) (n n' : Nested) : Prop where
  besides : KeptBesides P
  fire (p : PlayerId) (events : List EventRef) : Act.Matches P (n.fire p events) (n'.fire p events)
  ask (p : PlayerId) (r : Request) : Act.Matches P (n.ask p r) (n'.ask p r)

theorem Engine.besides_enter (e : Engine) (p : PlayerId) (id : ObjectId) (data : Json)
    (startedAt : Calendar.Timestamp) : e.Besides (e.enter p id data startedAt).2 := by
  rw [enter_eq]
  exact ⟨rfl, rfl, rfl, rfl⟩

theorem Engine.besides_begun (e : Engine) (p : PlayerId) (id : ObjectId) (data : Json) :
    e.Besides (e.begun p id data) := by
  have h := e.besides_enter p id data e.clock
  exact ⟨h.registry, h.packages, h.defaultScreen, h.sessions⟩

variable {n n' : Nested}

theorem KeptBesides.keeps_later (hP : KeptBesides P) (tasks : List (Nat × Task)) :
    (Act.later tasks).Keeps P fun _ => True := by
  refine Act.keeps_get_bind fun e he => ?_
  split
  · exact hP he ⟨rfl, rfl, rfl, rfl⟩
  · trivial

theorem KeptBesides.keeps_modify (hP : KeptBesides P) {c : Engine → Engine}
    (hc : ∀ e : Engine, e.Besides (c e)) :
    (modify c : Act Unit).Keeps P fun _ => True :=
  Act.keeps_modify fun e he => hP he (hc e)

/-! ### Starting and ending objectives -/

namespace Objectives

variable {held : Nat}

theorem start_keeps_besides (hP : KeptBesides P) : (start p id).Keeps P fun _ => True := by
  refine fun e he => Act.ensures_objective_bind ?_
  split
  · exact he
  · refine Act.ensures_get_bind ?_
    split
    · exact he
    · exact hP he (e.besides_begun p id _)

theorem remove_keeps (hP : KeptBesides P) (epoch : Option Nat) (how : Ending) :
    (remove p held id epoch how).Keeps P fun _ => True := by
  refine Act.keeps_get_bind fun e he => ?_
  split
  · exact he
  · split
    · exact hP he ⟨rfl, rfl, rfl, rfl⟩
    · exact he

theorem prune_keeps (hP : KeptBesides P) : (prune p held).Keeps P fun _ => True :=
  hP.keeps_modify fun _ => ⟨rfl, rfl, rfl, rfl⟩

theorem cancel_keeps_besides (hP : KeptBesides P) : (cancel p id).Keeps P fun _ => True :=
  cancel_keeps (fun _ he => hP he ⟨rfl, rfl, rfl, rfl⟩)
    fun he _ => hP he ⟨rfl, rfl, rfl, rfl⟩

/-- What follows a completion, down to the pruning of the slot. -/
theorem finish_bind_matches (hn : Nested.Matches P n n') (epoch : Nat) (events : List EventRef)
    (answer : β) :
    Act.Matches P (finish n p id epoch events >>= fun _ => prune p held >>= fun _ => pure answer)
      (finish n' p id epoch events >>= fun _ => prune p held >>= fun _ => pure answer) := by
  have hmark : (modify (·.mark p id epoch .rewarded) : Act Unit).Keeps P fun _ => True :=
    hn.besides.keeps_modify fun _ => ⟨rfl, rfl, rfl, rfl⟩
  have hprune : (prune p held).Keeps P fun _ => True := prune_keeps hn.besides
  refine Act.matches_bind ?_ fun _ =>
    Act.matches_bind (Act.matches_of_keeps hprune) fun _ => Act.matches_pure answer
  exact Act.matches_bind (Act.matches_of_keeps hmark) fun _ => hn.fire p events

theorem complete_matches (hn : Nested.Matches P n n') :
    Act.Matches P (complete n p id) (complete n' p id) := by
  refine fun e he => Act.agrees_objective_bind ?_
  split
  · exact Act.agrees_refl he
  · rename_i definition _
    refine Act.agrees_get_bind ?_
    split
    · exact Act.agrees_refl he
    · refine Act.matches_bind (Act.matches_of_keeps (remove_keeps hn.besides none _))
        (fun removed => ?_) e he
      split
      · exact Act.matches_pure _
      · exact finish_bind_matches hn _ definition.events _

end Objectives

/-- Whatever content may do keeps `P`. -/
theorem Nested.Matches.content (hn : Nested.Matches P n n') (p : PlayerId) :
    KeptByContent n p Set.univ true P fun _ => True where
  dice he := hn.besides he ⟨rfl, rfl, rfl, rfl⟩
  place _ _ he := hn.besides he ⟨rfl, rfl, rfl, rfl⟩
  join _ he := hn.besides he ⟨rfl, rfl, rfl, rfl⟩
  render _ he := hn.besides he ⟨rfl, rfl, rfl, rfl⟩
  note _ he := hn.besides he ⟨rfl, rfl, rfl, rfl⟩
  later he _ _ := hn.besides he ⟨rfl, rfl, rfl, rfl⟩
  ask r _ := (hn.ask p r).keeps
  start _ _ := Objectives.start_keeps_besides hn.besides
  cancel _ _ := Objectives.cancel_keeps_besides hn.besides
  complete _ _ := (Objectives.complete_matches hn).keeps
  overflow := trivial

/-! ### Variables, numbers and texts -/

theorem Script.run_matches (hn : Nested.Matches P n n') (script : Script α) :
    Eval.Matches P (script.run (n.ask p)) (script.run (n'.ask p)) := by
  induction script with
  | done a => exact Eval.matches_pure a
  | fail err => exact Eval.matches_of_keeps (Eval.keeps_throw err)
  | ask r next ih => exact Eval.matches_bind (Eval.matches_lift (hn.ask p r)) ih

theorem Variable.value_matches (hn : Nested.Matches P n n') (v : Variable) :
    Eval.Matches P (v.value n p) (v.value n' p) := by
  cases v with
  | custom script => exact Script.run_matches hn script
  | player field => cases field <;>
      exact Eval.matches_of_keeps (Variable.value_keeps (hn.content p) (Set.subset_univ _))
  | balance | missing | objective | location =>
    exact Eval.matches_of_keeps (Variable.value_keeps (hn.content p) (Set.subset_univ _))

theorem Variable.shown_matches (hn : Nested.Matches P n n') (v : Variable) :
    Act.Matches P (v.shown n p) (v.shown n' p) := by
  refine Act.matches_bind (Variable.value_matches hn v) fun r => ?_
  rcases r with err | text <;> exact Act.matches_pure _

theorem Quantity.resolve_matches (hn : Nested.Matches P n n') (q : Quantity) :
    Eval.Matches P (q.resolve n p) (q.resolve n' p) := by
  cases q with
  | constant x => exact Eval.matches_pure x
  | var v =>
    refine Eval.matches_bind (Variable.value_matches hn v.target) fun text => ?_
    split
    · exact Eval.matches_pure _
    · exact Eval.matches_of_keeps (Eval.keeps_throw _)

theorem RichText.render_matches (hn : Nested.Matches P n n') (text : RichText) :
    Act.Matches P (text.render n p) (text.render n' p) := by
  induction text with
  | nil => exact Act.matches_pure _
  | cons segment rest ih =>
    cases segment with
    | literal text => exact Act.matches_bind ih fun _ => Act.matches_pure _
    | reference v =>
      exact Act.matches_bind (Variable.shown_matches hn v.target) fun _ =>
        Act.matches_bind ih fun _ => Act.matches_pure _

/-! ### Conditions -/

mutual

theorem Condition.check_matches (hn : Nested.Matches P n n') (c : Condition) :
    Eval.Matches P (c.check n p) (c.check n' p) := by
  match c with
  | .sneaking | .facing _ | .holding _ | .objective _ | .stat _ _ _ =>
    exact Eval.matches_of_keeps (Condition.check_keeps (hn.content p) (Set.subset_univ _))
  | .compound any parts => exact Condition.checkParts_matches hn any parts
  | .chance probability =>
    exact Eval.matches_bind (Quantity.resolve_matches hn probability) fun _ =>
      Eval.matches_of_keeps (Eval.keeps_bind (hn.content p).keeps_draw fun _ => Eval.keeps_pure _)
  | .money amount =>
    exact Eval.matches_bind (Quantity.resolve_matches hn amount) fun _ =>
      Eval.matches_of_keeps (Eval.keeps_bind (Eval.keeps_balance p) fun _ => Eval.keeps_pure _)
  | .custom script => exact Script.run_matches hn script

theorem Condition.checkParts_matches (hn : Nested.Matches P n n') (any : Bool)
    (parts : List (Check Condition)) :
    Eval.Matches P (Condition.checkParts n p any parts) (Condition.checkParts n' p any parts) := by
  match parts with
  | [] => exact Eval.matches_pure _
  | ⟨_, negated, target⟩ :: rest =>
    refine Eval.matches_bind (Condition.check_matches hn target) fun met => ?_
    split
    · exact Eval.matches_pure _
    · exact Condition.checkParts_matches hn any rest

end

theorem Check.evaluate_matches (hn : Nested.Matches P n n') (c : ConditionRef) :
    Eval.Matches P (c.evaluate n p) (c.evaluate n' p) :=
  Eval.matches_bind (Condition.check_matches hn c.target) fun _ => Eval.matches_pure _

theorem Check.holds_matches (hn : Nested.Matches P n n') (c : ConditionRef) :
    Act.Matches P (c.holds n p) (c.holds n' p) := by
  refine Act.matches_bind (Check.evaluate_matches hn c) fun r => ?_
  rcases r with err | met <;> exact Act.matches_pure _

theorem allHold_matches (hn : Nested.Matches P n n') (conditions : List ConditionRef) :
    Act.Matches P (allHold n p conditions) (allHold n' p conditions) := by
  induction conditions with
  | nil => exact Act.matches_pure _
  | cons c rest ih =>
    refine Act.matches_bind (Check.holds_matches hn c) fun met => ?_
    split
    · exact ih
    · exact Act.matches_pure _

/-! ### Goals -/

theorem Goal.handle_matches (hn : Nested.Matches P n n') (goal : Goal) (data : Json)
    (event : GameEvent) :
    Eval.Matches P (goal.handle n p data event) (goal.handle n' p data event) := by
  cases goal with
  | arrow | kill =>
    exact Eval.matches_of_keeps (Goal.handle_keeps (hn.content p) (Set.subset_univ _) data event)
  | reach target range =>
    simp only [Goal.handle]
    split
    · split
      · exact Eval.matches_bind (Quantity.resolve_matches hn range) fun _ => Eval.matches_pure _
      · exact Eval.matches_pure _
    · exact Eval.matches_of_keeps (Eval.keeps_throw _)
  | custom goal =>
    simp only [Goal.handle]
    split
    · exact Script.run_matches hn _
    · exact Eval.matches_of_keeps (Eval.keeps_throw _)

theorem Recheck.passes_matches (hn : Nested.Matches P n n') (check : Recheck) :
    Eval.Matches P (check.passes n p) (check.passes n' p) := by
  cases check with
  | landing target range projectile reported =>
    exact Eval.matches_bind (Eval.matches_of_keeps Eval.keeps_get) fun _ =>
      Eval.matches_bind (Quantity.resolve_matches hn range) fun _ => Eval.matches_pure _
  | custom script => exact Script.run_matches hn script

/-! ### Events -/

theorem Eval.notify_matches (hn : Nested.Matches P n n') (channel : Channel) (text : RichText) :
    Eval.Matches P (notify n p channel text) (notify n' p channel text) := by
  have hrender : ∀ fs, (Act.changeWorld (·.render p fs)).Keeps P fun _ => True :=
    fun _ => hn.besides.keeps_modify fun _ => ⟨rfl, rfl, rfl, rfl⟩
  refine Eval.matches_bind (Eval.matches_of_keeps Eval.keeps_get) fun e => ?_
  split
  · exact Eval.matches_bind (Eval.matches_lift (RichText.render_matches hn text)) fun _ =>
      Eval.matches_of_keeps (Eval.keeps_lift (hrender _))
  · exact Eval.matches_of_keeps (Eval.keeps_throw _)

theorem Eval.changeObjective_matches (hn : Nested.Matches P n n') (action : ObjectiveChange) :
    Eval.Matches P (changeObjective n p action id) (changeObjective n' p action id) := by
  have hfound : ∀ result, Eval.Matches P (found result) (found result) :=
    fun result => Eval.matches_of_keeps (found_keeps result)
  cases action with
  | start =>
    exact Eval.matches_bind (Eval.matches_lift (Act.matches_of_keeps
      (Objectives.start_keeps_besides hn.besides))) hfound
  | cancel =>
    exact Eval.matches_bind (Eval.matches_lift (Act.matches_of_keeps
      (Objectives.cancel_keeps_besides hn.besides))) hfound
  | complete => exact Eval.matches_bind (Eval.matches_lift (Objectives.complete_matches hn)) hfound

mutual

theorem Action.perform_matches (hn : Nested.Matches P n n') (a : Action) :
    Eval.Matches P (a.perform n p) (a.perform n' p) := by
  match a with
  | .lever _ _ | .give _ | .take _ =>
    exact Eval.matches_of_keeps (Action.perform_keeps (hn.content p) (Set.subset_univ _))
  | .folder delay events =>
    simp only [Action.perform]
    split
    · exact Eval.matches_lift (Action.fireEach_matches hn events)
    · exact Eval.matches_lift (Act.matches_of_keeps (hn.besides.keeps_later _))
  | .objective action id => exact Eval.changeObjective_matches hn action
  | .notify channel text => exact Eval.notify_matches hn channel text
  | .money amount =>
    exact Eval.matches_bind (Quantity.resolve_matches hn amount) fun x =>
      Eval.matches_of_keeps (Eval.transfer_keeps (hn.content p) x)
  | .custom script => exact Script.run_matches hn script

theorem Action.fire_matches (hn : Nested.Matches P n n') (event : Gated Action) :
    Act.Matches P (Action.fire n p event) (Action.fire n' p event) := by
  match event with
  | ⟨conditions, content⟩ =>
    refine Act.matches_bind (allHold_matches hn conditions) fun met => ?_
    split
    · exact Act.matches_bind (Act.matches_discard (Action.perform_matches hn content)) fun _ =>
        Act.matches_pure _
    · exact Act.matches_pure _

theorem Action.fireEach_matches (hn : Nested.Matches P n n') (events : List (Ref (Gated Action))) :
    Act.Matches P (Action.fireEach n p events) (Action.fireEach n' p events) := by
  match events with
  | [] => exact Act.matches_pure _
  | ⟨_, event⟩ :: rest =>
    exact Act.matches_bind (Act.matches_discard (Action.fire_matches hn event)) fun _ =>
      Action.fireEach_matches hn rest

end

/-! ### Advancing objectives -/

namespace Objectives

variable {held epoch : Nat}

theorem settle_matches (hn : Nested.Matches P n n') (definition : Objective) :
    Act.Matches P (settle n p held definition epoch) (settle n' p held definition epoch) := by
  refine Act.matches_bind (allHold_matches hn definition.conditions) fun met => ?_
  split
  · refine Act.matches_bind (Act.matches_of_keeps (remove_keeps hn.besides _ _)) fun removed => ?_
    split
    · exact finish_bind_matches hn _ definition.events _
    · exact Act.matches_pure _
  · exact Act.matches_pure _

theorem store_keeps_besides (hP : KeptBesides P) (data : Json) :
    (store p held id epoch data).Keeps P fun _ => True := by
  refine Act.keeps_get_bind fun e he => ?_
  split
  · exact he
  · split
    · exact hP he ⟨rfl, rfl, rfl, rfl⟩
    · exact he

theorem offer_matches (hn : Nested.Matches P n n') (packages : Packages) (event : GameEvent) :
    Act.Matches P (offer n packages event p held id) (offer n' packages event p held id) := by
  refine Act.matches_get_bind fun e he => ?_
  split
  · rename_i definition active _ _
    refine Act.matches_bind (Goal.handle_matches hn definition.goal active.data event)
      (fun r => ?_) e he
    split
    · exact Act.matches_pure _
    · exact Act.matches_pure _
    · exact Act.matches_discard (Act.matches_of_keeps (store_keeps_besides hn.besides _))
    · refine Act.matches_bind (Act.matches_of_keeps (store_keeps_besides hn.besides _))
        fun stored => ?_
      split
      · exact Act.matches_discard (settle_matches hn definition)
      · exact Act.matches_pure _
    · exact Act.matches_of_keeps (hn.besides.keeps_later _)
  · exact Act.agrees_refl he

theorem offerEach_matches (hn : Nested.Matches P n n') (packages : Packages) (event : GameEvent)
    (ids : List ObjectId) :
    Act.Matches P (offerEach n packages event p held ids)
      (offerEach n' packages event p held ids) := by
  induction ids with
  | nil => exact Act.matches_pure _
  | cons id rest ih => exact Act.matches_bind (offer_matches hn packages event) fun _ => ih

theorem dispatch_matches (hn : Nested.Matches P n n') (event : GameEvent) :
    Act.Matches P (dispatch n event) (dispatch n' event) := by
  refine Act.matches_get_bind fun e he => ?_
  split
  · exact Act.agrees_refl he
  · exact offerEach_matches hn e.packages event _ e he

theorem resume_matches (hn : Nested.Matches P n n') (check : Recheck) :
    Act.Matches P (resume n p id epoch check) (resume n' p id epoch check) := by
  refine Act.matches_get_bind fun e he => ?_
  split
  · exact Act.agrees_refl he
  · refine Act.agrees_get_bind ?_
    split
    · refine Act.matches_bind (Recheck.passes_matches hn check) (fun r => ?_) e he
      split
      · exact Act.matches_pure _
      · exact Act.matches_pure _
      · refine fun e he => Act.agrees_objective_bind ?_
        split
        · exact Act.agrees_refl he
        · rename_i definition _
          exact Act.matches_discard (settle_matches hn definition) e he
    · exact Act.agrees_refl he

theorem restore_keeps_besides (hP : KeptBesides P) (records : List ProgressRecord) :
    (restore records).Keeps P fun _ => True :=
  restore_keeps (fun _ _ he _ _ => hP he (Engine.besides_enter ..)) records

end Objectives

/-! ### Time -/

theorem Reminder.ring_keeps (hP : KeptBesides P) (r : Reminder) :
    r.ring.Keeps P fun _ => True :=
  Act.keeps_bind Act.keeps_get fun _ =>
    Act.keeps_bind (hP.keeps_modify fun _ => ⟨rfl, rfl, rfl, rfl⟩) fun _ => hP.keeps_later _

theorem Task.run_matches (hn : Nested.Matches P n n') (t : Task) :
    Act.Matches P (t.run n) (t.run n') := by
  cases t with
  | fire p events => exact Action.fireEach_matches hn events
  | recheck p id epoch check => exact Objectives.resume_matches hn check
  | remind r => exact Act.matches_of_keeps (Reminder.ring_keeps hn.besides r)

theorem Task.runEach_matches (hn : Nested.Matches P n n') (due : List (Appointment Task)) :
    Act.Matches P (Task.runEach n due) (Task.runEach n' due) := by
  induction due with
  | nil => exact Act.matches_pure _
  | cons s rest ih => exact Act.matches_bind (Task.run_matches hn s.task) fun _ => ih

theorem Act.tick_matches (hn : Nested.Matches P n n') : Matches P (tick n) (tick n') :=
  matches_get_bind fun _ he => agrees_modify_bind
    (matches_bind (Task.runEach_matches hn _) (fun _ => matches_pure _) _
      (hn.besides he ⟨rfl, rfl, rfl, rfl⟩))

/-! ### Commands -/

theorem Act.resolving_matches {raw package : String} {k : Kind} {f g : Resolved k → Act α}
    (hf : ∀ d, Matches P (f d) (g d)) :
    Matches P (resolving raw k package f) (resolving raw k package g) := by
  refine matches_get_bind fun e he => ?_
  split
  · exact agrees_refl he
  · exact matches_map _ (hf _) e he

/-- All that a host may ask for other than a request and a reload. -/
theorem Command.perform_matches (hn : Nested.Matches P n n') {c : Command}
    (hrequest : ∀ p r, c ≠ .request p r) (hreload : ∀ packages, c ≠ .replacePackages packages) :
    Act.Matches P (c.perform n) (c.perform n') := by
  have hchange : ∀ {change : Engine → Engine}, (∀ e : Engine, e.Besides (change e)) →
      Act.Matches P (modify change : Act Unit) (modify change) :=
    fun h => Act.matches_of_keeps (hn.besides.keeps_modify h)
  cases c with
  | request p r => exact absurd rfl (hrequest p r)
  | replacePackages packages => exact absurd rfl (hreload packages)
  | check p raw package => exact Act.resolving_matches fun d => Check.holds_matches hn _
  | evaluate p raw package => exact Act.resolving_matches fun d => Check.evaluate_matches hn _
  | fire p raw package => exact Act.resolving_matches fun d => Action.fire_matches hn _
  | display p raw package => exact Act.resolving_matches fun d => Variable.shown_matches hn _
  | value p raw package => exact Act.resolving_matches fun d => Variable.value_matches hn _
  | dispatch event => exact Objectives.dispatch_matches hn event
  | tick => exact Act.tick_matches hn
  | remind ticks r => exact Act.matches_of_keeps (hn.besides.keeps_later _)
  | restore records =>
    exact Act.matches_of_keeps (Objectives.restore_keeps_besides hn.besides records)
  | changeWorld f => exact hchange fun _ => ⟨rfl, rfl, rfl, rfl⟩
  | setClock clock => exact hchange fun _ => ⟨rfl, rfl, rfl, rfl⟩

end Questbook
