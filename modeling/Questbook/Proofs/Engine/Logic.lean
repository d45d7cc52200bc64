/-
Questbook/Proofs/Engine/Logic.lean

The logic of conditions.

A condition comes to true, to false or to a failure.  A compound condition visits its parts in the
order in which they are written and comes to the first finding that decides it, or to the first
failure; a negation swaps true and false and leaves a failure alone.  Every visit may change the
state, and the next one starts from what it has left.  `Yields` says so without a word on how an
evaluation goes on, and `Visits` says which leaves an evaluation comes to and in which state.

Where a condition is checked, a failure counts as false.  The failure of a leaf therefore makes the
condition false, and it makes the negation false too.

Main result: `evaluate_run_iff`, with the laws that follow from it.
-/
import Questbook.Proofs.Engine.Settling
import Questbook.Proofs.Package.Evaluate
import Questbook.Proofs.Package.Written

namespace Questbook

variable {n : Nested} {p : PlayerId}

/-! ### The semantics of conditions -/

/-- What a condition comes to: true, false or a failure. -/
abbrev Finding : Type := Except EvalError Bool

/-- A finding behind a negation, if there is one: true and false are swapped, a failure stays. -/
def Finding.behind (negated : Bool) : Finding → Finding
  | .ok met => .ok (met != negated)
  | .error err => .error err

/-- A condition that is not put together from others. -/
def Condition.IsLeaf : Condition → Prop
  | .compound _ _ => False
  | _ => True

mutual

/-- Evaluated from one state, a condition comes to a finding and leaves another state. -/
inductive Yields (n : Nested) (p : PlayerId) : ConditionRef → Engine → Finding → Engine → Prop
  | leaf {id : ObjectId} {negated : Bool} {leaf : Condition} {e e' : Engine} {r : Finding}
      (hleaf : leaf.IsLeaf) (h : (Act.attempt (leaf.check n p)).run e = .ok (r, e')) :
      Yields n p ⟨id, negated, leaf⟩ e (r.behind negated) e'
  | compound {id : ObjectId} {negated any : Bool} {parts : List ConditionRef} {e e' : Engine}
      {r : Finding} (h : YieldsFirst n p any parts e r e') :
      Yields n p ⟨id, negated, .compound any parts⟩ e (r.behind negated) e'

/-- Visited in order, the parts of a compound condition come to the first finding that decides it,
and to the other one if there is none. -/
inductive YieldsFirst (n : Nested) (p : PlayerId) :
    Bool → List ConditionRef → Engine → Finding → Engine → Prop
  | exhausted (any : Bool) (e : Engine) : YieldsFirst n p any [] e (.ok !any) e
  | decided {any : Bool} {c : ConditionRef} {rest : List ConditionRef} {e e' : Engine}
      (hc : Yields n p c e (.ok any) e') : YieldsFirst n p any (c :: rest) e (.ok any) e'
  | failed {any : Bool} {c : ConditionRef} {rest : List ConditionRef} {e e' : Engine}
      {err : EvalError} (hc : Yields n p c e (.error err) e') :
      YieldsFirst n p any (c :: rest) e (.error err) e'
  | undecided {any : Bool} {c : ConditionRef} {rest : List ConditionRef} {e e₁ e' : Engine}
      {r : Finding} (hc : Yields n p c e (.ok !any) e₁)
      (hrest : YieldsFirst n p any rest e₁ r e') : YieldsFirst n p any (c :: rest) e r e'

end

mutual

/-- An evaluation that starts from one state comes to a leaf in another. -/
inductive Visits (n : Nested) (p : PlayerId) : ConditionRef → Engine → Condition → Engine → Prop
  | leaf {id : ObjectId} {negated : Bool} {leaf : Condition} {e : Engine} (hleaf : leaf.IsLeaf) :
      Visits n p ⟨id, negated, leaf⟩ e leaf e
  | compound {id : ObjectId} {negated any : Bool} {parts : List ConditionRef} {leaf : Condition}
      {e e₁ : Engine} (h : VisitsPart n p any parts e leaf e₁) :
      Visits n p ⟨id, negated, .compound any parts⟩ e leaf e₁

/-- A leaf of a part is come to if no part before it has decided. -/
inductive VisitsPart (n : Nested) (p : PlayerId) :
    Bool → List ConditionRef → Engine → Condition → Engine → Prop
  | first {any : Bool} {c : ConditionRef} {rest : List ConditionRef} {leaf : Condition}
      {e e₁ : Engine} (h : Visits n p c e leaf e₁) : VisitsPart n p any (c :: rest) e leaf e₁
  | later {any : Bool} {c : ConditionRef} {rest : List ConditionRef} {leaf : Condition}
      {e e₁ e₂ : Engine} (hc : Yields n p c e (.ok !any) e₁)
      (hrest : VisitsPart n p any rest e₁ leaf e₂) : VisitsPart n p any (c :: rest) e leaf e₂

end

/-! ### How an evaluation goes on -/

section

variable {α β : Type} {a : Eval α} {f : α → Eval β} {e e' : Engine}

/-- What an evaluation that goes on from another one comes to, by what that one has come to. -/
theorem Act.attempt_bind : attempt (a >>= f) = attempt a >>= fun
    | .ok x => attempt (f x)
    | .error err => pure (.error err) := by
  unfold attempt
  rw [ExceptT.run_bind]
  refine bind_congr fun r => ?_
  cases r <;> rfl

theorem Act.attempt_bind_of_ok {x : α} (h : (attempt a).run e = .ok (.ok x, e')) :
    (attempt (a >>= f)).run e = (attempt (f x)).run e' := by
  rw [attempt_bind]
  exact run_bind_of_run h

theorem Act.attempt_bind_of_error {err : EvalError}
    (h : (attempt a).run e = .ok (.error err, e')) :
    (attempt (a >>= f)).run e = .ok (.error err, e') := by
  rw [attempt_bind]
  exact run_bind_of_run h

theorem Act.attempt_bind_of_halt {h : Halt} (hrun : (attempt a).run e = .error h) :
    (attempt (a >>= f)).run e = .error h := by
  rw [attempt_bind, StateT.run_bind, hrun]
  rfl

end

section

variable {id : ObjectId} {negated any : Bool} {c : ConditionRef} {rest parts : List ConditionRef}

/-- The parts are evaluated as the references that they are. -/
theorem Condition.checkParts_cons : Condition.checkParts n p any (c :: rest) = (do
    let met ← c.evaluate n p
    if met = any then pure any else Condition.checkParts n p any rest) := by
  obtain ⟨id, negated, target⟩ := c
  simp only [Condition.checkParts, Check.evaluate, bind_assoc, pure_bind]

theorem Check.evaluate_compound : Check.evaluate n p ⟨id, negated, .compound any parts⟩ = (do
    let met ← Condition.checkParts n p any parts
    pure (met != negated)) := by
  simp only [Check.evaluate, Condition.check]

/-- A condition is evaluated as what it refers to, behind its negation. -/
theorem Check.evaluate_run {e e' : Engine} {r : Finding}
    (h : (Act.attempt (c.target.check n p)).run e = .ok (r, e')) :
    (Act.attempt (c.evaluate n p)).run e = .ok (r.behind c.negated, e') := by
  cases r with
  | error err => exact Act.attempt_bind_of_error h
  | ok met => exact Act.attempt_bind_of_ok h

end

/-! ### Evaluations and the semantics -/

mutual

/-- What a condition comes to is what its evaluation answers. -/
theorem Yields.run {c : ConditionRef} {e e' : Engine} {r : Finding} (h : Yields n p c e r e') :
    (Act.attempt (c.evaluate n p)).run e = .ok (r, e') := by
  cases h with
  | leaf hleaf h => exact Check.evaluate_run h
  | compound h =>
    refine Check.evaluate_run ?_
    rw [Condition.check]
    exact h.run

theorem YieldsFirst.run {any : Bool} {parts : List ConditionRef} {e e' : Engine} {r : Finding}
    (h : YieldsFirst n p any parts e r e') :
    (Act.attempt (Condition.checkParts n p any parts)).run e = .ok (r, e') := by
  cases h with
  | exhausted =>
    rw [Condition.checkParts]
    rfl
  | decided hc =>
    rw [Condition.checkParts_cons, Act.attempt_bind_of_ok hc.run, if_pos rfl]
    rfl
  | failed hc =>
    rw [Condition.checkParts_cons]
    exact Act.attempt_bind_of_error hc.run
  | undecided hc hrest =>
    rw [Condition.checkParts_cons, Act.attempt_bind_of_ok hc.run, if_neg (Bool.not_ne_self _)]
    exact hrest.run

end

/-- An evaluation stops the engine in a leaf that it comes to. -/
def HaltsIn (n : Nested) (p : PlayerId) (c : ConditionRef) (e : Engine) (h : Halt) : Prop :=
  ∃ leaf e₁, Visits n p c e leaf e₁ ∧ (Act.attempt (leaf.check n p)).run e₁ = .error h

def HaltsInPart (n : Nested) (p : PlayerId) (any : Bool) (parts : List ConditionRef) (e : Engine)
    (h : Halt) : Prop :=
  ∃ leaf e₁, VisitsPart n p any parts e leaf e₁ ∧
    (Act.attempt (leaf.check n p)).run e₁ = .error h

/-- A condition is evaluated as what it refers to, however that goes. -/
theorem Check.ensures_evaluate {c : ConditionRef} {e : Engine} {H : Halt → Prop}
    {R : Finding → Engine → Prop}
    (h : (Act.attempt (c.target.check n p)).Ensures e H
      fun r e' => R (Finding.behind c.negated r) e') :
    (Act.attempt (c.evaluate n p)).Ensures e H R := by
  unfold Check.evaluate
  rw [Act.attempt_bind]
  refine Act.ensures_bind h fun r e' _ hr => ?_
  cases r with
  | error err => exact hr
  | ok met => exact hr

/-- A leaf is all that its evaluation comes to. -/
theorem Check.evaluate_ensures_of_leaf {id : ObjectId} {negated : Bool} {leaf : Condition}
    {e : Engine} (hleaf : leaf.IsLeaf) :
    (Act.attempt (Check.evaluate n p ⟨id, negated, leaf⟩)).Ensures e
      (HaltsIn n p ⟨id, negated, leaf⟩ e) (Yields n p ⟨id, negated, leaf⟩ e) := by
  refine Check.ensures_evaluate ?_
  cases hrun : (Act.attempt (leaf.check n p)).run e with
  | error h => exact Act.ensures_of_halt hrun ⟨leaf, e, .leaf hleaf, hrun⟩
  | ok r => exact (Act.ensures_of_run hrun).2 (.leaf hleaf hrun)

mutual

/-- An evaluation answers what the condition comes to, or stops the engine in a leaf. -/
theorem Check.evaluate_ensures (c : ConditionRef) (e : Engine) :
    (Act.attempt (c.evaluate n p)).Ensures e (HaltsIn n p c e) (Yields n p c e) := by
  match c with
  | ⟨id, negated, .compound any parts⟩ =>
    refine Check.ensures_evaluate ?_
    rw [Condition.check]
    refine Act.Ensures.mono (Act.Ensures.weaken (Condition.checkParts_ensures any parts e) ?_)
      fun r e' _ h => .compound h
    rintro h ⟨leaf, e₁, hvisits, hhalt⟩
    exact ⟨leaf, e₁, .compound hvisits, hhalt⟩
  | ⟨_, _, .sneaking⟩ => exact Check.evaluate_ensures_of_leaf trivial
  | ⟨_, _, .facing _⟩ => exact Check.evaluate_ensures_of_leaf trivial
  | ⟨_, _, .holding _⟩ => exact Check.evaluate_ensures_of_leaf trivial
  | ⟨_, _, .objective _⟩ => exact Check.evaluate_ensures_of_leaf trivial
  | ⟨_, _, .chance _⟩ => exact Check.evaluate_ensures_of_leaf trivial
  | ⟨_, _, .stat _ _ _⟩ => exact Check.evaluate_ensures_of_leaf trivial
  | ⟨_, _, .money _⟩ => exact Check.evaluate_ensures_of_leaf trivial
  | ⟨_, _, .custom _⟩ => exact Check.evaluate_ensures_of_leaf trivial

theorem Condition.checkParts_ensures (any : Bool) (parts : List ConditionRef) (e : Engine) :
    (Act.attempt (Condition.checkParts n p any parts)).Ensures e (HaltsInPart n p any parts e)
      (YieldsFirst n p any parts e) := by
  match parts with
  | [] =>
    rw [Condition.checkParts]
    exact YieldsFirst.exhausted any e
  | c :: rest =>
    have hc := Check.evaluate_ensures c e
    rw [Condition.checkParts_cons, Act.attempt_bind]
    refine Act.ensures_bind (Act.Ensures.weaken hc ?_) fun r e₁ _ hr => ?_
    · rintro h ⟨leaf, e₁, hvisits, hhalt⟩
      exact ⟨leaf, e₁, .first hvisits, hhalt⟩
    cases r with
    | error err => exact YieldsFirst.failed hr
    | ok met =>
      by_cases hmet : met = any
      · subst hmet
        dsimp only
        rw [if_pos rfl]
        exact YieldsFirst.decided hr
      · -- The part is true where false decides, or the other way round, and the next one follows.
        obtain rfl : met = !any := Bool.eq_not_of_ne hmet
        dsimp only
        rw [if_neg hmet]
        refine Act.Ensures.mono (Act.Ensures.weaken (Condition.checkParts_ensures any rest e₁) ?_)
          fun r e' _ h => .undecided hr h
        rintro h ⟨leaf, e₂, hvisits, hhalt⟩
        exact ⟨leaf, e₂, .later hr hvisits, hhalt⟩

end

mutual

/-- A leaf that stops the engine stops every evaluation that comes to it. -/
theorem Visits.run_of_halt {c : ConditionRef} {leaf : Condition} {e e₁ : Engine} {h : Halt}
    (hvisits : Visits n p c e leaf e₁)
    (hhalt : (Act.attempt (leaf.check n p)).run e₁ = .error h) :
    (Act.attempt (c.evaluate n p)).run e = .error h := by
  match hvisits with
  | .leaf hleaf => exact Act.attempt_bind_of_halt hhalt
  | .compound hpart =>
    refine Act.attempt_bind_of_halt ?_
    rw [Condition.check]
    exact hpart.run_of_halt hhalt

theorem VisitsPart.run_of_halt {any : Bool} {parts : List ConditionRef} {leaf : Condition}
    {e e₁ : Engine} {h : Halt} (hvisits : VisitsPart n p any parts e leaf e₁)
    (hhalt : (Act.attempt (leaf.check n p)).run e₁ = .error h) :
    (Act.attempt (Condition.checkParts n p any parts)).run e = .error h := by
  match hvisits with
  | .first hc =>
    rw [Condition.checkParts_cons]
    exact Act.attempt_bind_of_halt (hc.run_of_halt hhalt)
  | .later hc hrest =>
    rw [Condition.checkParts_cons, Act.attempt_bind_of_ok hc.run, if_neg (Bool.not_ne_self _)]
    exact hrest.run_of_halt hhalt

end

mutual

/-- A leaf that fails is the failure of every condition whose evaluation comes to it. -/
theorem Visits.failed {c : ConditionRef} {leaf : Condition} {e e₁ e₂ : Engine} {err : EvalError}
    (hvisits : Visits n p c e leaf e₁)
    (hfails : (Act.attempt (leaf.check n p)).run e₁ = .ok (.error err, e₂)) :
    Yields n p c e (.error err) e₂ := by
  match hvisits with
  | .leaf hleaf => exact .leaf (r := .error err) hleaf hfails
  | .compound hpart => exact .compound (r := .error err) (hpart.failed hfails)

theorem VisitsPart.failed {any : Bool} {parts : List ConditionRef} {leaf : Condition}
    {e e₁ e₂ : Engine} {err : EvalError} (hvisits : VisitsPart n p any parts e leaf e₁)
    (hfails : (Act.attempt (leaf.check n p)).run e₁ = .ok (.error err, e₂)) :
    YieldsFirst n p any parts e (.error err) e₂ := by
  match hvisits with
  | .first hc => exact .failed (hc.failed hfails)
  | .later hc hrest => exact .undecided hc (hrest.failed hfails)

end

mutual

/-- Every failure is that of a leaf. -/
theorem Yields.exists_failed {c : ConditionRef} {e e' : Engine} {r : Finding} {err : EvalError}
    (h : Yields n p c e r e') (hr : r = .error err) :
    ∃ leaf e₁, Visits n p c e leaf e₁ ∧
      (Act.attempt (leaf.check n p)).run e₁ = .ok (.error err, e') := by
  cases h with
  | @leaf _ _ leaf _ _ r hleaf h =>
    match r with
    | .ok met => cases hr
    | .error err =>
      cases hr
      exact ⟨leaf, e, .leaf hleaf, h⟩
  | @compound _ _ _ _ _ _ r h =>
    match r with
    | .ok met => cases hr
    | .error err =>
      cases hr
      obtain ⟨leaf, e₁, hvisits, hfails⟩ := h.exists_failed rfl
      exact ⟨leaf, e₁, .compound hvisits, hfails⟩

theorem YieldsFirst.exists_failed {any : Bool} {parts : List ConditionRef} {e e' : Engine}
    {r : Finding} {err : EvalError} (h : YieldsFirst n p any parts e r e') (hr : r = .error err) :
    ∃ leaf e₁, VisitsPart n p any parts e leaf e₁ ∧
      (Act.attempt (leaf.check n p)).run e₁ = .ok (.error err, e') := by
  cases h with
  | exhausted => cases hr
  | decided hc => cases hr
  | failed hc =>
    obtain ⟨leaf, e₁, hvisits, hfails⟩ := hc.exists_failed hr
    exact ⟨leaf, e₁, .first hvisits, hfails⟩
  | undecided hc hrest =>
    obtain ⟨leaf, e₁, hvisits, hfails⟩ := hrest.exists_failed hr
    exact ⟨leaf, e₁, .later hc hvisits, hfails⟩

end

section

variable {c : ConditionRef} {e e' : Engine}

/-- To evaluate a condition is to come to what it yields, -/
theorem Check.evaluate_run_iff {r : Finding} :
    (Act.attempt (c.evaluate n p)).run e = .ok (r, e') ↔ Yields n p c e r e' :=
  ⟨fun h => (Check.evaluate_ensures c e).of_run h, Yields.run⟩

/-- unless a leaf stops the engine that the evaluation comes to. -/
theorem Check.evaluate_halt_iff {h : Halt} :
    (Act.attempt (c.evaluate n p)).run e = .error h ↔ HaltsIn n p c e h := by
  refine ⟨fun hrun => (Check.evaluate_ensures c e).of_halt hrun, ?_⟩
  rintro ⟨leaf, e₁, hvisits, hhalt⟩
  exact hvisits.run_of_halt hhalt

/-- A condition fails as the leaf does that its evaluation comes to. -/
theorem yields_error_iff {err : EvalError} : Yields n p c e (.error err) e' ↔
    ∃ leaf e₁, Visits n p c e leaf e₁ ∧
      (Act.attempt (leaf.check n p)).run e₁ = .ok (.error err, e') := by
  refine ⟨fun h => h.exists_failed rfl, ?_⟩
  rintro ⟨leaf, e₁, hvisits, hfails⟩
  exact hvisits.failed hfails

end

/-! ### The laws -/

/-- The negation of a condition. -/
def Check.negate (c : ConditionRef) : ConditionRef := { c with negated := !c.negated }

section

variable {id id' : ObjectId} {negated any : Bool} {c : ConditionRef} {parts : List ConditionRef}

/-- A negation swaps true and false, whatever state the evaluation leaves. -/
theorem Check.evaluate_negate : c.negate.evaluate n p = (do
    let met ← c.evaluate n p
    pure !met) := by
  simp only [Check.negate, Check.evaluate, bind_assoc, pure_bind, Bool.xor_not]

/-- The other connective of the negations decides where the one decides, and the other way. -/
theorem Condition.checkParts_negate :
    Condition.checkParts n p (!any) (parts.map Check.negate) = (do
      let met ← Condition.checkParts n p any parts
      pure !met) := by
  induction parts with
  | nil => simp only [List.map_nil, Condition.checkParts, pure_bind]
  | cons c rest ih =>
    rw [List.map_cons, Condition.checkParts_cons, Condition.checkParts_cons, Check.evaluate_negate,
      ih, bind_assoc, bind_assoc]
    refine bind_congr fun met => ?_
    rw [pure_bind]
    by_cases hmet : met = any
    · rw [if_pos hmet, if_pos (congrArg _ hmet), pure_bind]
    · rw [if_neg hmet, if_neg (fun h => hmet (Bool.not_inj h))]

/-- A negated conjunction is the disjunction of the negations, and the other way round. -/
theorem Check.evaluate_dual :
    Check.evaluate n p ⟨id, !negated, .compound any parts⟩ =
      Check.evaluate n p ⟨id', negated, .compound (!any) (parts.map Check.negate)⟩ := by
  rw [Check.evaluate_compound, Check.evaluate_compound, Condition.checkParts_negate, bind_assoc]
  refine bind_congr fun met => ?_
  rw [pure_bind]
  cases met <;> cases negated <;> rfl

/-- The answer of an evaluation, false if it fails. -/
def Eval.orFalse (a : Eval Bool) : Act Bool := do
  match ← Act.attempt a with
  | .ok met => pure met
  | .error _ => pure false

/-- An evaluation that does not get beyond its first part is false. -/
theorem Eval.orFalse_bind {α : Type} {a : Eval α} {f : α → Eval Bool} :
    (a >>= f).orFalse = Act.attempt a >>= fun
      | .ok x => (f x).orFalse
      | .error _ => pure false := by
  unfold Eval.orFalse
  rw [Act.attempt_bind, bind_assoc]
  refine bind_congr fun r => ?_
  cases r with
  | error err => exact pure_bind _ _
  | ok x => rfl

theorem Eval.orFalse_checkParts :
    (Condition.checkParts n p false parts).orFalse = allHold n p parts := by
  induction parts with
  | nil =>
    rw [Condition.checkParts]
    rfl
  | cons c rest ih =>
    have hcons : allHold n p (c :: rest) = c.holds n p >>= fun met =>
      if met then allHold n p rest else pure false := rfl
    rw [Condition.checkParts_cons, Eval.orFalse_bind, hcons, Check.holds, bind_assoc]
    refine bind_congr fun r => ?_
    match r with
    | .error err => rw [pure_bind, if_neg Bool.false_ne_true]
    | .ok false =>
      rw [pure_bind, if_neg Bool.false_ne_true]
      rfl
    | .ok true =>
      rw [pure_bind, if_pos rfl]
      exact ih

/-- To check a conjunction is to check its parts one after another, up to the first that does not
hold: a failure stops either. -/
theorem Check.holds_conjunction :
    Check.holds n p ⟨id, false, .compound false parts⟩ = allHold n p parts := by
  have hevaluate : Check.evaluate n p ⟨id, false, .compound false parts⟩ =
      Condition.checkParts n p false parts := by
    rw [Check.evaluate_compound]
    simp only [Bool.bne_false, bind_pure]
  rw [← Eval.orFalse_checkParts, ← hevaluate]
  rfl

end

/-! ### What is written -/

/-- The keyword of a compound condition. -/
def connective (any : Bool) : String := if any then "or" else "and"

section

variable {registry : Registry} {sources : Sources} {id : ObjectId} {any : Bool}

/-- A compound condition refers to what its line lists, in the order of the list. -/
theorem compound_written
    (hkeyword : registry.conditions.find? (connective any) = some (Vocabulary.compound any))
    {raw : String} {line : Line} (hraw : sources.line? .condition id = some raw)
    (hline : Line.parse id raw = .ok line) (hconnective : line.keyword = connective any)
    {c : Condition} (h : (Packages.compile registry sources).get .condition id = .ok c) :
    ∃ names line' parts, line.read Line.nextList = (.ok names, line') ∧ c = .compound any parts ∧
      List.Forall₂ (fun name part =>
        ((Packages.compile registry sources).resolve name .condition id.package).map
          Resolved.conditionRef = .ok part) names parts := by
  obtain ⟨raw', line', hraw', hline', hdraft⟩ := condition_written h
  rw [hraw] at hraw'
  cases hraw'
  rw [hline] at hline'
  cases hline'
  unfold Registry.condition Registry.byKeyword at hdraft
  rw [hconnective, hkeyword] at hdraft
  obtain ⟨names, rest, hread, hdraft⟩ := Plan.exists_of_succeeds_read hdraft
  obtain ⟨parts, hparts, rfl⟩ := Plan.exists_of_succeeds_map hdraft
  refine ⟨names, rest, parts, hread, rfl, ?_⟩
  refine Plan.forall₂_of_succeeds_each (fun name x part hpart => ?_) hparts
  obtain ⟨t, hmet, rfl⟩ := hpart
  exact condition_met_iff_resolve.1 hmet

/-- A name that is not negated is read as it stands. -/
theorem stripNegation_eq {name : String} (h : (stripNegation name).1 = false) :
    stripNegation name = (false, name) := by
  unfold stripNegation at h ⊢
  split at h
  · cases h
  · rfl

theorem stripNegation_cons (name : String) :
    stripNegation (String.ofList ('!' :: name.toList)) = (true, name) := by
  unfold stripNegation
  rw [String.toList_ofList]
  show (true, String.ofList name.toList) = (true, name)
  rw [String.ofList_toList]

/-- A name with an exclamation mark in front means the negation of what it means without. -/
theorem resolve_negation {K : Packages} {name package : String}
    (h : (stripNegation name).1 = false) :
    (K.resolve (String.ofList ('!' :: name.toList)) .condition package).map
        Resolved.conditionRef =
      ((K.resolve name .condition package).map Resolved.conditionRef).map Check.negate := by
  have hread : Kind.condition.read name = (false, name) := stripNegation_eq h
  have hnegated : Kind.condition.read (String.ofList ('!' :: name.toList)) = (true, name) :=
    stripNegation_cons name
  rw [Packages.resolve_eq_map, Packages.resolve_eq_map, hread, hnegated]
  cases K.get .condition (ObjectId.qualify name package) <;> rfl

end

/-- **Conditions follow a logic of three values.**

* The evaluation of a condition answers what the condition comes to when its parts are visited in
  order, and stops the engine if a leaf does so that it comes to.
* It fails if a leaf does so that it comes to, with the failure of that leaf.
* To check a conjunction is to check its parts up to the first that does not hold.
* A negation swaps true and false, a negated conjunction is the disjunction of the negations, and
  the other way round; all of that with the same failures and in the same states.
* If a leaf fails that an evaluation comes to, neither the condition nor its negation holds.
* What is compiled is such a condition: an exclamation mark negates a name, and a line with the
  keyword of a conjunction or a disjunction becomes one, of what its names mean, in their order.
-/
theorem evaluation_is_three_valued (n : Nested) (p : PlayerId) :
    (∀ c e,
      (∀ r e', (Act.attempt (c.evaluate n p)).run e = .ok (r, e') ↔ Yields n p c e r e') ∧
      (∀ h, (Act.attempt (c.evaluate n p)).run e = .error h ↔
        ∃ leaf e₁, Visits n p c e leaf e₁ ∧
          (Act.attempt (leaf.check n p)).run e₁ = .error h) ∧
      (∀ err e', Yields n p c e (.error err) e' ↔
        ∃ leaf e₁, Visits n p c e leaf e₁ ∧
          (Act.attempt (leaf.check n p)).run e₁ = .ok (.error err, e'))) ∧
    (∀ id parts, Check.holds n p ⟨id, false, .compound false parts⟩ = allHold n p parts) ∧
    (∀ c : ConditionRef, c.negate.evaluate n p = do
      let met ← c.evaluate n p
      pure !met) ∧
    (∀ id id' negated any parts, Check.evaluate n p ⟨id, !negated, .compound any parts⟩ =
      Check.evaluate n p ⟨id', negated, .compound (!any) (parts.map Check.negate)⟩) ∧
    (∀ c e leaf e₁ err e₂, Visits n p c e leaf e₁ →
      (Act.attempt (leaf.check n p)).run e₁ = .ok (.error err, e₂) →
      (c.holds n p).run e = .ok (false, e₂) ∧ (c.negate.holds n p).run e = .ok (false, e₂)) ∧
    (∀ (K : Packages) (name package : String), (stripNegation name).1 = false →
      (K.resolve (String.ofList ('!' :: name.toList)) .condition package).map
          Resolved.conditionRef =
        ((K.resolve name .condition package).map Resolved.conditionRef).map Check.negate) ∧
    (∀ (registry : Registry) (sources : Sources) (any : Bool),
      registry.conditions.find? (connective any) = some (Vocabulary.compound any) →
      ∀ id raw line c, sources.line? .condition id = some raw → Line.parse id raw = .ok line →
        line.keyword = connective any →
        (Packages.compile registry sources).get .condition id = .ok c →
        ∃ names line' parts, line.read Line.nextList = (.ok names, line') ∧
          c = .compound any parts ∧
          List.Forall₂ (fun name part =>
            ((Packages.compile registry sources).resolve name .condition id.package).map
              Resolved.conditionRef = .ok part) names parts) := by
  refine ⟨?_, ?_, ?_, ?_, ?_, ?_, ?_⟩
  · intro c e
    refine ⟨fun r e' => Check.evaluate_run_iff, fun h => Check.evaluate_halt_iff, ?_⟩
    intro err e'
    exact yields_error_iff
  · intro id parts
    exact Check.holds_conjunction
  · intro c
    exact Check.evaluate_negate
  · intro id id' negated any parts
    exact Check.evaluate_dual
  · intro c e leaf e₁ err e₂ hvisits hfails
    have hc : (Act.attempt (c.evaluate n p)).run e = .ok (.error err, e₂) :=
      (hvisits.failed hfails).run
    have hnegated : (Act.attempt (c.negate.evaluate n p)).run e = .ok (.error err, e₂) := by
      rw [Check.evaluate_negate]
      exact Act.attempt_bind_of_error hc
    exact ⟨Check.holds_of_ne hc nofun, Check.holds_of_ne hnegated nofun⟩
  · intro K name package h
    exact resolve_negation h
  · intro registry sources any hkeyword id raw line c hraw hline hconnective h
    exact compound_written hkeyword hraw hline hconnective h

/-! ### A den -/

/-- A conjunction with a negation in it. -/
def den : Sources where
  packages := (∅ : Table String PackageSource).insert "den" { PackageSource.empty with
    conditions := .ofList [("both", "and quiet,!north"), ("north", "facing north"),
      ("quiet", "sneak")] }

theorem compile_den : Packages.compile (Vocabulary.registry ⟨true, true⟩) den =
    compileWithin (Vocabulary.registry ⟨true, true⟩) den 4 :=
  (compileWithin_eq (show 3 < 4 by decide) (by decide)).symm

/-- Who is not there is not known to sneak, so that the conjunction does not hold for him, and its
negation does not hold either. -/
theorem evaluation_is_three_valued_of_absent :
    ∃ parts, (Packages.compile (Vocabulary.registry ⟨true, true⟩) den).get .condition
        ⟨"den", "both"⟩ = .ok (.compound false parts) ∧
      List.Forall₂ (fun name part =>
        ((Packages.compile (Vocabulary.registry ⟨true, true⟩) den).resolve name .condition
          "den").map Resolved.conditionRef = .ok part) ["quiet", "!north"] parts ∧
      ∀ negated, (Check.holds (nested 1) ⟨"ann"⟩
          ⟨⟨"den", "both"⟩, negated, .compound false parts⟩).run Engine.bare =
        .ok (false, Engine.bare) := by
  obtain ⟨-, -, -, -, hfails, -, hwritten⟩ := evaluation_is_three_valued (nested 1) ⟨"ann"⟩
  obtain ⟨c, hget⟩ : ∃ c, (Packages.compile (Vocabulary.registry ⟨true, true⟩) den).get .condition
      ⟨"den", "both"⟩ = .ok c := by
    have hok : Except.isOk ((compileWithin (Vocabulary.registry ⟨true, true⟩) den 4).get .condition
      ⟨"den", "both"⟩) = true := by decide +kernel
    rw [← compile_den] at hok
    cases hget : (Packages.compile (Vocabulary.registry ⟨true, true⟩) den).get .condition
        ⟨"den", "both"⟩ with
    | ok c => exact ⟨c, rfl⟩
    | error e =>
      rw [hget] at hok
      cases hok
  let line : Line := ⟨⟨"den", "both"⟩, "and quiet,!north", "and", [⟨"quiet,!north", false⟩], 0⟩
  have hline : Line.parse ⟨"den", "both"⟩ "and quiet,!north" = .ok line := by decide +kernel
  have hnames : (line.read Line.nextList).1 = .ok ["quiet", "!north"] := by decide +kernel
  obtain ⟨names, line', parts, hread, rfl, hparts⟩ := hwritten (Vocabulary.registry ⟨true, true⟩)
    den false rfl ⟨"den", "both"⟩ "and quiet,!north" line c rfl hline rfl hget
  rw [hread] at hnames
  cases hnames
  have hquiet : (Packages.compile (Vocabulary.registry ⟨true, true⟩) den).resolve "quiet"
      .condition "den" = .ok ⟨⟨"den", "quiet"⟩, false, .sneaking⟩ :=
    compile_resolve_eq_ok_iff.2 ⟨rfl, rfl,
      compile_find?.2 (mem_grounded_iff.2 ⟨some "sneak", .done Condition.sneaking (), rfl, rfl⟩)⟩
  refine ⟨parts, hget, hparts, ?_⟩
  obtain _ | ⟨hfirst, hrest⟩ := hparts
  rw [hquiet] at hfirst
  cases hfirst
  intro negated
  exact (hfails _ Engine.bare .sneaking Engine.bare (.playerOffline ⟨"ann"⟩) Engine.bare
    (.compound (.first (.leaf trivial))) rfl).1

end Questbook
