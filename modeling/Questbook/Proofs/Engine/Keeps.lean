/-
Questbook/Proofs/Engine/Keeps.lean

Invariants of the engine's steps.

`a.Ensures e H Q` says how a run of `a` from `e` may end: with an answer and a state that satisfy
`Q`, or with a halt that `H` allows.  `a.Keeps P H` says that `a` leads from states with `P` to
states with `P`.  A halt is an outcome like any other, so that with the right `H` an invariant also
tells which halts there cannot be.

The rules follow the ways in which steps are put together.  The rule for `>>=` hands on the run of
its first part, for where the second one relies on what the first has answered.
-/
import Questbook.Engine.Evaluate

namespace Questbook

variable {α β : Type} {e : Engine} {P Q : Engine → Prop} {H : Halt → Prop}

/-! ### Steps -/

/-- A run of `a` from `e` answers as `R` says, or halts as `H` allows. -/
def Act.Ensures (a : Act α) (e : Engine) (H : Halt → Prop) (R : α → Engine → Prop) : Prop :=
  match a.run e with
  | .ok r => R r.1 r.2
  | .error h => H h

/-- Every run of `a` from a state with `P` ends in one, or halts as `H` allows. -/
def Act.Keeps (P : Engine → Prop) (H : Halt → Prop) (a : Act α) : Prop :=
  ∀ e, P e → a.Ensures e H fun _ => P

namespace Act

variable {a : Act α} {f : α → Act β} {R : α → Engine → Prop}

theorem ensures_halt {h : Halt} (hh : H h) : (halt h : Act α).Ensures e H R := hh

theorem ensures_of_run {x : α} {e' : Engine} (hrun : a.run e = .ok (x, e')) :
    a.Ensures e H R ↔ R x e' := by
  simp only [Ensures, hrun]

theorem ensures_of_halt {h : Halt} (hrun : a.run e = .error h) (hh : H h) : a.Ensures e H R := by
  simpa only [Ensures, hrun] using hh

/-- What a run that answers has come to. -/
theorem Ensures.of_run {x : α} {e' : Engine} (h : a.Ensures e H R) (hrun : a.run e = .ok (x, e')) :
    R x e' :=
  (ensures_of_run hrun).1 h

theorem Ensures.mono {R' : α → Engine → Prop} (h : a.Ensures e H R)
    (hR : ∀ x e', a.run e = .ok (x, e') → R x e' → R' x e') : a.Ensures e H R' := by
  unfold Ensures at h ⊢
  cases hrun : a.run e with
  | ok r =>
    rw [hrun] at h
    exact hR r.1 r.2 hrun h
  | error err =>
    rw [hrun] at h
    exact h

/-- The ways in which a run may halt can be extended. -/
theorem Ensures.weaken {H' : Halt → Prop} (h : a.Ensures e H R) (hH : ∀ x, H x → H' x) :
    a.Ensures e H' R := by
  unfold Ensures at h ⊢
  cases hrun : a.run e with
  | ok r =>
    rw [hrun] at h
    exact h
  | error err =>
    rw [hrun] at h
    exact hH err h

/-- A run that halts does so as it may. -/
theorem Ensures.of_halt {h : Halt} (he : a.Ensures e H R) (hrun : a.run e = .error h) : H h := by
  simpa only [Ensures, hrun] using he

/-- What a run answers and how it may halt can be shown apart. -/
theorem Ensures.halting {H' : Halt → Prop} {R' : α → Engine → Prop} (h : a.Ensures e H' R)
    (h' : a.Ensures e H R') : a.Ensures e H R := by
  unfold Ensures at h h' ⊢
  cases hrun : a.run e with
  | ok r =>
    rw [hrun] at h
    exact h
  | error err =>
    rw [hrun] at h'
    exact h'

/-- A composite step goes on from what its first part has answered. -/
theorem run_bind_of_run {x : α} {e' : Engine} (h : a.run e = .ok (x, e')) :
    (a >>= f).run e = (f x).run e' := by
  rw [StateT.run_bind, h]
  rfl

/-- Composite steps run alike if their parts do, in the states that they come to. -/
theorem run_bind_congr {b : Act α} {g : α → Act β} (h : a.run e = b.run e)
    (hf : ∀ x e', a.run e = .ok (x, e') → (f x).run e' = (g x).run e') :
    (a >>= f).run e = (b >>= g).run e := by
  rw [StateT.run_bind, StateT.run_bind, ← h]
  cases hrun : a.run e with
  | error err => rfl
  | ok r => exact hf r.1 r.2 hrun

theorem run_discard_congr {b : Act α} (h : a.run e = b.run e) :
    (discard a).run e = (discard b).run e :=
  run_bind_congr (f := fun _ => pure ()) (g := fun _ => pure ()) h fun _ _ _ => rfl

theorem run_get_bind (f : Engine → Act β) (e : Engine) : (get >>= f).run e = (f e).run e := rfl

theorem run_get_congr {f g : Engine → Act β} (h : (f e).run e = (g e).run e) :
    (get >>= f).run e = (get >>= g).run e := h

theorem run_objective_bind {id : ObjectId} (f : Except NotFound Objective → Act β) (e : Engine) :
    (objective id >>= f).run e = (f (e.packages.get .objective id)).run e := rfl

theorem run_objective_congr {id : ObjectId} {f g : Except NotFound Objective → Act β}
    (h : (f (e.packages.get .objective id)).run e = (g (e.packages.get .objective id)).run e) :
    (objective id >>= f).run e = (objective id >>= g).run e := h

/-- A composite step whose first part is known to answer. -/
theorem ensures_bind_of_run {x : α} {e' : Engine} {R' : β → Engine → Prop}
    (hrun : a.run e = .ok (x, e')) (h : (f x).Ensures e' H R') : (a >>= f).Ensures e H R' := by
  unfold Ensures
  rw [run_bind_of_run hrun]
  exact h

/-- A composite step that answers has two parts that answer. -/
theorem exists_of_run_bind {y : β} {e' : Engine} (h : (a >>= f).run e = .ok (y, e')) :
    ∃ x e₁, a.run e = .ok (x, e₁) ∧ (f x).run e₁ = .ok (y, e') := by
  rw [StateT.run_bind] at h
  cases hrun : a.run e with
  | error err =>
    rw [hrun] at h
    cases h
  | ok r =>
    rw [hrun] at h
    exact ⟨r.1, r.2, rfl, h⟩

/-- A composite step, where the second part may rely on what the first one has answered. -/
theorem ensures_bind {R' : β → Engine → Prop} (ha : a.Ensures e H R)
    (hf : ∀ x e', a.run e = .ok (x, e') → R x e' → (f x).Ensures e' H R') :
    (a >>= f).Ensures e H R' := by
  unfold Ensures at ha ⊢
  rw [StateT.run_bind]
  cases hrun : a.run e with
  | error err =>
    rw [hrun] at ha
    exact ha
  | ok r =>
    rw [hrun] at ha
    exact hf r.1 r.2 hrun ha

theorem ensures_map {f : α → β} {R' : β → Engine → Prop} (h : a.Ensures e H fun x => R' (f x)) :
    (f <$> a).Ensures e H R' := by
  rw [map_eq_pure_bind]
  exact ensures_bind h fun _ _ _ hR => hR

/-- Reading the state changes nothing, and what is read is the state. -/
theorem ensures_get_bind {f : Engine → Act β} {R : β → Engine → Prop}
    (hf : (f e).Ensures e H R) : (get >>= f).Ensures e H R := hf

/-- A change of the state, and what goes on from there. -/
theorem ensures_modify_bind {g : Engine → Engine} {k : Unit → Act β} {R : β → Engine → Prop}
    (hk : (k ()).Ensures (g e) H R) : ((modify g : Act Unit) >>= k).Ensures e H R := hk

theorem keeps_pure (x : α) : (pure x : Act α).Keeps P H := fun _ he => he

theorem keeps_halt {h : Halt} (hh : H h) : (halt h : Act α).Keeps P H := fun _ _ => hh

theorem keeps_get : (get : Act Engine).Keeps P H := fun _ he => he

theorem keeps_modify {f : Engine → Engine} (h : ∀ e, P e → P (f e)) :
    (modify f : Act Unit).Keeps P H := h

theorem keeps_bind (ha : a.Keeps P H) (hf : ∀ x, (f x).Keeps P H) : (a >>= f).Keeps P H :=
  fun e he => ensures_bind (ha e he) fun x e' _ => hf x e'

/-- A step that goes on from the state it finds. -/
theorem keeps_get_bind {f : Engine → Act β} (hf : ∀ e, P e → (f e).Ensures e H fun _ => P) :
    (get >>= f).Keeps P H := hf

theorem keeps_map (f : α → β) (ha : a.Keeps P H) : (f <$> a).Keeps P H := by
  rw [map_eq_pure_bind]
  exact keeps_bind ha fun x => keeps_pure (f x)

theorem keeps_discard (ha : a.Keeps P H) : (discard a).Keeps P H := keeps_map _ ha

theorem Keeps.of_run {x : α} {e' : Engine} (ha : a.Keeps P H) (he : P e)
    (hrun : a.run e = .ok (x, e')) : P e' :=
  (ha e he).of_run hrun

/-- What a step keeps and how it may halt can be shown apart. -/
theorem Keeps.halting {H' : Halt → Prop} (h : a.Keeps P H') (h' : a.Keeps Q H)
    (hPQ : ∀ e, P e → Q e) : a.Keeps P H :=
  fun e he => (h e he).halting (h' e (hPQ e he))

theorem objective_run {id : ObjectId} {r : Except NotFound Objective} {e e' : Engine}
    (h : (Act.objective id).run e = .ok (r, e')) : r = e.packages.get .objective id ∧ e' = e := by
  cases h
  exact ⟨rfl, rfl⟩

/-- Looking an objective up changes nothing. -/
theorem ensures_objective_bind {id : ObjectId} {f : Except NotFound Objective → Act β}
    {R : β → Engine → Prop} (hf : (f (e.packages.get .objective id)).Ensures e H R) :
    (objective id >>= f).Ensures e H R := hf

end Act

/-! ### Evaluations -/

/-- Every run of an evaluation from a state with `P`, failed or not, ends in one, or halts as `H`
allows. -/
def Eval.Keeps (P : Engine → Prop) (H : Halt → Prop) (a : Eval α) : Prop :=
  Act.Keeps P H (ExceptT.run a)

namespace Eval

variable {a : Eval α} {f : α → Eval β}

theorem keeps_pure (x : α) : (pure x : Eval α).Keeps P H := Act.keeps_pure _

theorem keeps_throw (err : EvalError) : (throw err : Eval α).Keeps P H := Act.keeps_pure _

theorem keeps_bind (ha : a.Keeps P H) (hf : ∀ x, (f x).Keeps P H) : (a >>= f).Keeps P H := by
  unfold Keeps
  rw [ExceptT.run_bind]
  refine Act.keeps_bind ha fun r => ?_
  rcases r with err | x
  · exact Act.keeps_pure _
  · exact hf x

theorem keeps_map (f : α → β) (ha : a.Keeps P H) : (f <$> a).Keeps P H := by
  rw [map_eq_pure_bind]
  exact keeps_bind ha fun x => keeps_pure (f x)

/-- A step of the engine is an evaluation that does not fail. -/
theorem keeps_lift {a : Act α} (ha : a.Keeps P H) : (liftM a : Eval α).Keeps P H :=
  Act.keeps_map _ ha

theorem keeps_get : (get : Eval Engine).Keeps P H := keeps_lift Act.keeps_get

theorem run_get_bind (f : Engine → Eval β) (e : Engine) :
    StateT.run (ExceptT.run (get >>= f)) e = StateT.run (ExceptT.run (f e)) e := rfl

theorem keeps_ofExcept (r : Except EvalError α) : (ofExcept r).Keeps P H := by
  rcases r with err | x
  · exact keeps_throw err
  · exact keeps_pure x

theorem keeps_avatar (p : PlayerId) : (avatar p).Keeps P H :=
  keeps_bind keeps_get fun _ => keeps_ofExcept _

theorem keeps_needEconomy : needEconomy.Keeps P H := by
  refine keeps_bind keeps_get fun e => ?_
  split
  · exact keeps_pure _
  · exact keeps_throw _

theorem keeps_needStats : needStats.Keeps P H := by
  refine keeps_bind keeps_get fun e => ?_
  split
  · exact keeps_pure _
  · exact keeps_throw _

theorem keeps_balance (p : PlayerId) : (balance p).Keeps P H :=
  keeps_bind keeps_needEconomy fun _ => keeps_bind keeps_get fun _ => keeps_ofExcept _

/-- A composite evaluation that answers has two parts that answer. -/
theorem exists_of_run_bind {y : β} {e e' : Engine}
    (h : StateT.run (ExceptT.run (a >>= f)) e = .ok (.ok y, e')) :
    ∃ x e₁, StateT.run (ExceptT.run a) e = .ok (.ok x, e₁) ∧
      StateT.run (ExceptT.run (f x)) e₁ = .ok (.ok y, e') := by
  rw [ExceptT.run_bind] at h
  obtain ⟨r, e₁, ha, hf⟩ := Act.exists_of_run_bind h
  rcases r with err | x
  · cases hf
  · exact ⟨x, e₁, ha, hf⟩

end Eval

end Questbook
