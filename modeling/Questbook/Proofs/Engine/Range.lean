/-
Questbook/Proofs/Engine/Range.lean

Ranges by their magnitude.

Whether a spot is in range of another is told by squares: the square of their distance is compared
with the square of the range.  For a range that is not negative this is the comparison of the
distance with the range.  A range below zero counts as its magnitude, as there is no sign in its
square, although nothing is that close; and nothing is within zero.

A range may be below zero: of a constant or a variable it is asked that it is finite, and no more.
So an objective with a range of -5 is completed as one with a range of 5 is, and one whose range is
zero is completed on request only.

Main results: `range_by_magnitude`, `negative_range_completes`.
-/
import Mathlib
import Questbook.Proofs.Decimal.Signs
import Questbook.Proofs.Engine.Items
import Questbook.Proofs.Engine.Landing
import Questbook.Proofs.Engine.Soundness

namespace Questbook

/-! ### Spots -/

namespace Spot

section

variable {R : Type} [Add R] [Sub R] [Mul R] [LT R] [DecidableLT R] {a b : Spot R} {r r' : R}

/-- A range counts by its square. -/
theorem within_congr (h : r * r = r' * r') : a.within b r = a.within b r' := by
  unfold within
  rw [h]

end

section

variable (a b : Spot ℝ) {r r' : ℝ}

/-- Where a spot is in space. -/
noncomputable def position (s : Spot ℝ) : EuclideanSpace ℝ (Fin 3) := !₂[s.x, s.y, s.z]

/-- How far apart two spots are, whatever their worlds. -/
noncomputable def distance (a b : Spot ℝ) : ℝ := dist a.position b.position

theorem sq_distance : a.distance b ^ 2 =
    (a.x - b.x) * (a.x - b.x) + (a.y - b.y) * (a.y - b.y) + (a.z - b.z) * (a.z - b.z) := by
  have hsum : 0 ≤ ∑ i, dist (a.position i) (b.position i) ^ 2 :=
    Finset.sum_nonneg fun i _ => sq_nonneg _
  rw [distance, EuclideanSpace.dist_eq, Real.sq_sqrt hsum, Fin.sum_univ_three]
  simp only [Real.dist_eq, sq_abs]
  simp only [position, sq]
  rfl

/-- With exact arithmetic the squares compare the distance with the magnitude of the range. -/
theorem within_iff : a.within b r = true ↔ a.world = b.world ∧ a.distance b < |r| := by
  have hsquares : a.distance b < |r| ↔ a.distance b ^ 2 < r * r := by
    have hdistance : |a.distance b| = a.distance b := abs_of_nonneg dist_nonneg
    rw [← hdistance, ← sq_lt_sq, sq_abs, sq r]
  rw [hsquares, sq_distance]
  unfold within distanceSquared?
  by_cases hworld : a.world = b.world <;> simp [hworld]

theorem within_mono (hle : |r| ≤ |r'|) (h : a.within b r = true) : a.within b r' = true := by
  rw [within_iff] at h ⊢
  exact ⟨h.1, h.2.trans_le hle⟩

theorem not_within_zero : a.within b 0 = false := by
  rw [← Bool.not_eq_true, within_iff, abs_zero]
  exact fun h => h.2.not_ge dist_nonneg

end

section

variable (a b : Spot Float)

theorem within_neg (x : Float) : a.within b (-x) = a.within b x :=
  within_congr (Signs.neg_mul_neg_self x)

/-- Of floating-point numbers too, none is in range where the range is zero. -/
theorem not_within_of_zero {x : Float} (h : (x == 0) = true) : a.within b x = false := by
  unfold within distanceSquared?
  split
  · rename_i hdistance
    split at hdistance
    · cases hdistance
      rw [Signs.mul_self_of_zero h]
      exact decide_eq_false (Signs.not_lt_zero_of_squares _ _ _)
    · cases hdistance
  · rfl

end

end Spot

/-! ### Ranges -/

/-- A goal that is reached close to a target: the target, and the range around it. -/
def Goal.aim? : Goal → Option (Location × Quantity)
  | arrow target range => some (target, range)
  | reach target range => some (target, range)
  | kill _ _ => none
  | custom _ => none

/-- Whatever a number comes to is finite. -/
def Quantity.IsFinite (q : Quantity) : Prop :=
  ∀ n p e e' x, (Act.attempt (q.resolve n p)).run e = .ok (.ok x, e') → x.isFinite = true

theorem Decimal.isFinite_of_finite? {s : String} {x : Float} (h : Decimal.finite? s = some x) :
    x.isFinite = true := (Option.filter_eq_some_iff.1 h).2

theorem Quantity.isFinite_constant {x : Float} (h : x.isFinite = true) : (constant x).IsFinite := by
  intro n p e e' y hy
  rwa [← Eval.eq_of_pure_run hy]

/-- The text of a variable is read as a finite number, or it is none. -/
theorem Quantity.isFinite_var (v : VariableRef) : (var v).IsFinite := by
  intro n p e e' x hx
  obtain ⟨text, e₁, -, hx⟩ := Eval.exists_of_run_bind hx
  split at hx
  · rename_i y hy
    rw [← Eval.eq_of_pure_run hx]
    exact Decimal.isFinite_of_finite? hy
  · cases hx

namespace Vocabulary

open Draft

variable {S : Stock}

theorem gives_isFinite : nextQuantity.GivesFrom S Quantity.IsFinite := by
  refine gives_read_bind fun token => ?_
  split
  · exact gives_map (gives_trivial.mono fun v _ => Quantity.isFinite_var v)
  · split
    · rename_i x hx
      exact gives_pure (Quantity.isFinite_constant (Decimal.isFinite_of_finite? hx))
    · exact gives_failHere _

/-- The range of a goal is finite. -/
def Ranged (goal : Goal) : Prop := ∀ target range, goal.aim? = some (target, range) → range.IsFinite

theorem gives_ranged (i : Integrations) :
    (Registry.byKeyword .objective (registry i).goals).GivesFrom S Ranged := by
  refine gives_byKeyword ?_
  simp only [List.forall_mem_cons]
  refine ⟨?_, ?_, ?_, nofun⟩
  · refine gives_read_bind fun target => gives_map (gives_isFinite.mono fun range hrange => ?_)
    rintro _ _ ⟨⟩
    exact hrange
  · refine gives_read_bind fun target => gives_map (gives_isFinite.mono fun range hrange => ?_)
    rintro _ _ ⟨⟩
    exact hrange
  · refine gives_read_bind fun entities => ?_
    split
    · exact gives_fail _
    · refine gives_read_bind fun amount => gives_pure ?_
      rintro _ _ ⟨⟩

end Vocabulary

theorem isFinite_of_compile {i : Integrations} {sources : Sources} {id : ObjectId}
    {definition : Objective} {target : Location} {range : Quantity}
    (h : (Packages.compile (Vocabulary.registry i) sources).get .objective id = .ok definition)
    (haim : definition.goal.aim? = some (target, range)) : range.IsFinite := by
  obtain ⟨_, _, -, -, hobjective⟩ := objective_written h
  obtain ⟨_, _, _, _, -, -, -, -, -, hgoal⟩ := Registry.exists_of_objective hobjective
  exact Vocabulary.gives_ranged i _ _ _ _ hgoal _ _ haim

/-! ### Goals -/

section

variable {n : Nested} {p : PlayerId} {e e' : Engine} {target : Location} {range : Quantity}
  {x : Float}
  {goal : Goal}

/-- Walking is enough if it leads into range. -/
theorem Goal.reach_run (h : (Act.attempt (range.resolve n p)).run e = .ok (.ok x, e'))
    (q : PlayerId) (spot : Location) :
    (Act.attempt ((Goal.reach target range).handle n p .null (.playerMoved q spot))).run e =
      .ok (.ok (.null, if target.within spot.toSpot x then .satisfied else .ignored), e') :=
  (Act.attempt_bind_of_ok h).trans rfl

/-- An arrow hits if it is in range. -/
theorem Recheck.landing_run (h : (Act.attempt (range.resolve n p)).run e = .ok (.ok x, e'))
    (projectile : String) (reported : Location) :
    (Act.attempt ((Recheck.landing target range projectile reported).passes n p)).run e =
      .ok (.ok (target.within ((e.world.projectile? projectile).getD reported).toSpot x), e') := by
  have hget : (Act.attempt (get : Eval Engine)).run e = .ok (.ok e, e) := rfl
  exact (Act.attempt_bind_of_ok hget).trans ((Act.attempt_bind_of_ok h).trans rfl)

/-- A goal whose target has a range that never comes to anything but zero. -/
def Goal.Shut (n : Nested) (p : PlayerId) (goal : Goal) : Prop :=
  ∃ target range, goal.aim? = some (target, range) ∧
    ∀ e e' x, (Act.attempt (range.resolve n p)).run e = .ok (.ok x, e') → (x == 0) = true

theorem Goal.not_satisfied_of_shut {data data' : Json} {event : GameEvent} (hshut : goal.Shut n p) :
    (Act.attempt (goal.handle n p data event)).run e ≠ .ok (.ok (data', .satisfied), e') := by
  intro h
  obtain ⟨target, range, haim, hzero⟩ := hshut
  rw [Goal.handle_eq] at h
  split at h
  case isFalse => cases h
  case isTrue =>
    cases goal with
    | arrow =>
      simp only [Goal.respond] at h
      split at h <;> cases h
    | reach =>
      cases haim
      simp only [Goal.respond] at h
      split at h
      · obtain ⟨x, e₁, hrange, h⟩ := Eval.exists_of_run_bind h
        have houtcome := congrArg Prod.snd (Eval.eq_of_pure_run h)
        -- Nothing is within a range of zero.
        rw [Spot.not_within_of_zero _ _ (hzero _ _ _ hrange), if_neg Bool.false_ne_true] at houtcome
        cases houtcome
      · cases h
    | kill => cases haim
    | custom => cases haim

/-- No check is passed that was put off. -/
theorem Goal.not_met_of_shut {event : GameEvent} {check : Recheck}
    (hshut : goal.Shut n event.player) : ¬ goal.Met n event check e := by
  intro h
  obtain ⟨target, range, haim, hzero⟩ := hshut
  cases h with
  | arrow hevent hrange hnear =>
    subst hevent
    cases haim
    rw [Spot.not_within_of_zero _ _ (hzero _ _ _ hrange)] at hnear
    cases hnear
  | custom => cases haim

end

/-! ### Every run -/

namespace Engine

variable {levels : Nat} {start e e₁ e₂ e' : Engine} {cs : List Command} {c : Command} {a : Attempt}
  {definition : Objective} {data : Json} {done : List (Appointment Task)} {s : Appointment Task}
  {p : PlayerId} {id : ObjectId} {epoch : Nat} {check : Recheck}

/-- Whatever packages a run puts in force, nobody can get in range for an objective. -/
def Shuts (levels : Nat) (cs : List Command) (p : PlayerId) (id : ObjectId) : Prop :=
  ∀ packages, .replacePackages packages ∈ cs → ∀ definition,
    packages.get .objective id = .ok definition → definition.goal.Shut (nested levels) p

theorem Shuts.goal (h : Shuts levels cs p id) (hpackages : start.packages = Packages.empty)
    (hrun : performAll levels cs start = .ok e)
    (hdefined : e.packages.get .objective id = .ok definition) :
    definition.goal.Shut (nested levels) p :=
  defined_of_performAll (Q := fun id' o => id' = id → o.goal.Shut (nested levels) p)
    (fun packages hmem _ o hget heq => h packages hmem o (heq ▸ hget)) hpackages hrun hdefined rfl

theorem Shuts.not_passed (h : Shuts levels cs p id) (hpackages : start.packages = Packages.empty)
    (hwaiting : start.agenda.waiting = []) (hcarries : CarriesOut levels start cs done s e₁ e₂)
    (htask : s.task = .recheck p id epoch check) :
    (Act.attempt (check.passes (nested levels) p)).run e₁ ≠ .ok (.ok true, e') := by
  intro hpassed
  -- The check was put off by a definition that was in force then.
  obtain ⟨before, event, after, e₀, rfl, hdeferred⟩ := hcarries.deferred hwaiting htask
  have hbefore : Shuts levels before event.player id :=
    fun packages hmem => h packages (by simp [hdeferred.split, hmem])
  cases hdeferred.puts with
  | intro _ hdefined _ hgiven =>
    exact Goal.not_met_of_shut (hbefore.goal hpackages hdeferred.before hdefined)
      (Goal.met_of_passes hgiven hpassed)

theorem Shuts.not_reaches (h : Shuts levels cs a.player a.id)
    (hpackages : start.packages = Packages.empty) (hwaiting : start.agenda.waiting = [])
    (hrun : performAll levels cs start = .ok e) :
    ¬ Reaches levels start cs e c a definition data e₁ := by
  intro hreaches
  cases hreaches with
  | turn hturn hdefined hactive hsatisfied =>
    exact Goal.not_satisfied_of_shut (h.goal hpackages hrun hdefined) hsatisfied
  | check hcarries htask hheld hactive hpassed =>
    exact h.not_passed hpackages hwaiting hcarries htask hpassed

end Engine

open Engine

/-- **A range counts as its magnitude.**

With exact arithmetic a spot is within a range of another if and only if both are of one world and
their distance is less than the magnitude of the range.  So for a range that is not negative it is
the distance itself that is less; for one that is, less than its negative; what is within a range is
within all of a greater magnitude; and nothing is within zero.  Floating-point numbers too do not
tell a range from its negative, and have nothing within zero.

Of what is compiled with the built-in keywords, the range of an objective comes to finite numbers
only, of either sign.  Walking satisfies a goal, and an arrow passes its check, if and only if that
leads within the range.  An objective whose range comes to zero only is completed in no dispatch and
on no tick of any run, unless content asks for it while it runs. -/
theorem range_by_magnitude (a b : Spot ℝ) (r : ℝ) :
    ((a.within b r = true ↔ a.world = b.world ∧ a.distance b < |r|) ∧
      (0 ≤ r → (a.within b r = true ↔ a.world = b.world ∧ a.distance b < r)) ∧
      (r < 0 → (a.within b r = true ↔ a.world = b.world ∧ a.distance b < -r)) ∧
      (∀ r' : ℝ, |r| ≤ |r'| → a.within b r = true → a.within b r' = true) ∧
      a.within b 0 = false) ∧
    (∀ (a b : Spot Float) (x : Float), a.within b (-x) = a.within b x ∧
      ((x == 0) = true → a.within b x = false)) ∧
    (∀ i sources id definition target range,
      (Packages.compile (Vocabulary.registry i) sources).get .objective id = .ok definition →
        definition.goal.aim? = some (target, range) → range.IsFinite) ∧
    (∀ n p e e' target range x, (Act.attempt (range.resolve n p)).run e = .ok (.ok x, e') →
      (∀ q spot, (Act.attempt ((Goal.reach target range).handle n p .null
          (.playerMoved q spot))).run e =
        .ok (.ok (.null, if target.within spot.toSpot x then .satisfied else .ignored), e')) ∧
      ∀ projectile spot, (Act.attempt ((Recheck.landing target range projectile spot).passes n
          p)).run e =
        .ok (.ok (target.within ((e.world.projectile? projectile).getD spot).toSpot x), e')) ∧
    (∀ registry integrations world archived screen clock dice levels cs e,
      (∀ packages, .replacePackages packages ∈ cs → packages.Titled) →
      performAll levels cs (fresh registry integrations world archived screen clock dice) = .ok e →
      ∀ c answer e', (c = .tick ∨ ∃ event, c = .dispatch event) →
        e.perform levels c = .ok (answer, e') →
        ∀ x ∈ e'.journal, x.what = .ended .completed → x ∉ e.journal →
          Shuts levels cs x.player x.objective →
          Requested levels (fresh registry integrations world archived screen clock dice) cs e c
            (contentDemands cs) x) := by
  refine ⟨⟨a.within_iff b, fun hr => ?_, fun hr => ?_, fun r' => a.within_mono b,
    a.not_within_zero b⟩, fun a b x => ⟨a.within_neg b x, a.not_within_of_zero b⟩,
    fun i sources id definition target range => isFinite_of_compile,
    fun n p e e' target range x h => ⟨Goal.reach_run h, Recheck.landing_run h⟩, ?_⟩
  · rw [a.within_iff, abs_of_nonneg hr]
  · rw [a.within_iff, abs_of_neg hr]
  · intro registry integrations world archived screen clock dice levels cs e htitled hrun
    obtain ⟨hK, he⟩ := authored_contentDemands Set.Subset.rfl hrun
    have htitle := titled_of_performAll htitled hrun
    have hearned : ∀ c x, Shuts levels cs x.player x.objective →
        ¬ Earned levels (fresh registry integrations world archived screen clock dice) cs e c
          x := by
      rintro c x hshuts ⟨a, definition, data, e₁, hreaches, hplayer, hobjective, -, -⟩
      rw [hplayer, hobjective] at hshuts
      exact hshuts.not_reaches rfl rfl hrun hreaches
    rintro c answer e' (rfl | ⟨event, rfl⟩) h x hx hcompleted hnew hshuts
    · exact (tick_written hrun he hK.within htitle h hcompleted hnew hx).resolve_left
        (hearned _ x hshuts)
    · exact (dispatch_written he hK.within htitle h hcompleted hnew hx).resolve_left
        (hearned _ x hshuts)

/-! ### A walk to the orchard -/

/-- The hedge of the orchard. -/
def hedge : Location := .ofSpot ⟨"world", 0, 64, 0⟩

/-- A place next to it. -/
def stile : Location := .ofSpot ⟨"world", 1, 64, 0⟩

/-- Objectives of the orchard. -/
def orchardId (name : String) : ObjectId := ⟨"orchard", name⟩

/-- Some objectives of the orchard are started. -/
def outing (K : Packages) (names : List String) : List Command :=
  .replacePackages K :: names.map fun name => .request ⟨"ann"⟩ (.startObjective (orchardId name))

theorem eq_of_mem_outing {K packages : Packages} {names : List String}
    (h : .replacePackages packages ∈ outing K names) : packages = K := by
  simpa [outing] using h

/-- The player walks to the stile. -/
def stroll : Command := .dispatch (.playerMoved ⟨"ann"⟩ stile)

/-- The objective is completed that was started first. -/
def arrival (name : String) : JournalEntry := ⟨⟨"ann"⟩, orchardId name, 0, .ended .completed⟩

/-- Whether the objective that was started first is completed by a walk to the stile. -/
def arrives (K : Packages) (names : List String) (name : String) : Bool :=
  passes (performAll 3 (outing K names) idle) fun e =>
    e.progress.held? ⟨"ann"⟩ == some 0 &&
    (e.progress.activeOf ⟨"ann"⟩).keys == names.map orchardId &&
    decide (arrival name ∉ e.journal) &&
    passes ((Objectives.offerEach (nested 3) e.packages (.playerMoved ⟨"ann"⟩ stile) ⟨"ann"⟩ 0
      (names.map orchardId)).run e) fun r => decide (arrival name ∈ r.2.journal)

theorem exists_of_arrives {K : Packages} {names : List String} {name : String}
    (hsorted : (names.map orchardId).Pairwise fun a b => ObjectId.atMost a b = true)
    (h : arrives K names name = true) : ∃ e e',
      performAll 3 (outing K names) idle = .ok e ∧ e.perform 3 stroll = .ok ((), e') ∧
      arrival name ∉ e.journal ∧ arrival name ∈ e'.journal := by
  obtain ⟨e, hbefore, h⟩ := exists_of_passes h
  simp only [Bool.and_eq_true, beq_iff_eq, decide_eq_true_iff] at h
  obtain ⟨⟨⟨hheld, hkeys⟩, hnew⟩, h⟩ := h
  obtain ⟨⟨answer, e'⟩, hoffered, harrival⟩ := exists_of_passes h
  have hids : e.progress.ids ⟨"ann"⟩ = names.map orchardId := by
    rw [Slots.ids, hkeys]
    exact List.mergeSort_of_pairwise hsorted
  exact ⟨e, e', hbefore, (Objectives.dispatch_run 0 hheld hids).trans hoffered, hnew,
    of_decide_eq_true harrival⟩

/-- Packages in which the orchard has two objectives: one for which nobody is close enough to the
hedge, and one that has the first completed as well. -/
def orchard : Packages where
  sources := ⟨(∅ : Table String PackageSource).insert "orchard" { PackageSource.empty with
    objectives := .ofList [("spot", "location 0;64;0;world 0"),
      ("walk", "location 0;64;0;world 5 events:finish")] }⟩
  built := (Catalogue.empty.add .objective (orchardId "spot")
      ⟨orchardId "spot", .reach hedge (.constant 0), [], []⟩).add .objective (orchardId "walk")
    ⟨orchardId "walk", .reach hedge (.constant 5), [],
      [⟨orchardId "finish", ⟨[], .objective .complete (orchardId "spot")⟩⟩]⟩
  broken := []
  diagnostics := []

theorem titled_orchard : orchard.Titled := by
  intro id definition h
  have hmem := Table.mem_entries_of_find? (Packages.find?_of_get h)
  rcases List.mem_pair.1 hmem with heq | heq <;> cases heq <;> rfl

theorem shuts_spot (names : List String) :
    Shuts 3 (outing orchard names) ⟨"ann"⟩ (orchardId "spot") := by
  intro packages hmem definition hget
  obtain rfl := eq_of_mem_outing hmem
  have hspot : orchard.get .objective (orchardId "spot") =
      .ok ⟨orchardId "spot", .reach hedge (.constant 0), [], []⟩ := rfl
  cases hget.symm.trans hspot
  refine ⟨hedge, .constant 0, rfl, fun e e' x hx => ?_⟩
  rw [← Eval.eq_of_pure_run hx]
  rfl

/-- A way back to the hedge, with a range below zero. -/
def byway : Sources where
  packages := (∅ : Table String PackageSource).insert "orchard" { PackageSource.empty with
    objectives := .ofList [("back", "location 0;64;0;world -5")] }

/-- What the built-in keywords make of the way back. -/
def compiledByway : Packages := Packages.compile (Vocabulary.registry ⟨true, true⟩) byway

theorem compiledByway_eq :
    compiledByway = compileWithin (Vocabulary.registry ⟨true, true⟩) byway 2 :=
  (compileWithin_eq (show 1 < 2 by decide) (by decide)).symm

/-- The range of the way back is a constant below zero, and the stile is within it. -/
theorem byway_goal
    (h : (match (compileWithin (Vocabulary.registry ⟨true, true⟩) byway 2).get .objective
        (orchardId "back") with
      | .ok ⟨_, .reach target (.constant x), _, _⟩ => decide (x < 0) && target.within stile.toSpot x
      | _ => false) = true) : ∃ definition target x,
    compiledByway.get .objective (orchardId "back") = .ok definition ∧
    definition.goal = .reach target (.constant x) ∧ x < 0 ∧
    target.within stile.toSpot x = true := by
  rw [← compiledByway_eq] at h
  split at h
  · rename_i hget
    rw [Bool.and_eq_true, decide_eq_true_iff] at h
    exact ⟨_, _, _, hget, rfl, h⟩
  · cases h

/-- The walk to the stile completes the objective. -/
theorem exists_of_byway : ∃ definition target x e e',
    compiledByway.get .objective (orchardId "back") = .ok definition ∧
    definition.goal = .reach target (.constant x) ∧ x < 0 ∧ target.within stile.toSpot x = true ∧
    performAll 3 (outing compiledByway ["back"]) idle = .ok e ∧ e.perform 3 stroll = .ok ((), e') ∧
    arrival "back" ∉ e.journal ∧ arrival "back" ∈ e'.journal := by
  obtain ⟨definition, target, x, hget, hgoal, hnegative, hnear⟩ := byway_goal (by decide +kernel)
  have harrives : arrives compiledByway ["back"] "back" = true := by
    rw [compiledByway_eq]
    decide +kernel
  obtain ⟨e, e', hbefore, hstroll, hnew, harrival⟩ := exists_of_arrives (by decide) harrives
  exact ⟨definition, target, x, e, e', hget, hgoal, hnegative, hnear, hbefore, hstroll, hnew,
    harrival⟩

/-- The range of the way back is finite, and the stile is near enough.  A walk to it completes the
objective for which nobody is close enough, as content asks for that. -/
theorem range_by_magnitude_of_walk :
    (⟨"world", 0, 64, 0⟩ : Spot ℝ).within ⟨"world", 0, 64, 3⟩ 5 = true ∧
    (∃ definition target x, compiledByway.get .objective (orchardId "back") = .ok definition ∧
      definition.goal = .reach target (.constant x) ∧ x.isFinite = true ∧
      (Act.attempt (definition.goal.handle (nested 3) ⟨"ann"⟩ .null
          (.playerMoved ⟨"ann"⟩ stile))).run idle =
        .ok (.ok (.null, .satisfied), idle)) ∧
    ∃ e e', performAll 3 (outing orchard ["spot", "walk"]) idle = .ok e ∧
      e.perform 3 stroll = .ok ((), e') ∧ arrival "spot" ∉ e.journal ∧
      arrival "spot" ∈ e'.journal ∧
      Requested 3 idle (outing orchard ["spot", "walk"]) e stroll
        (contentDemands (outing orchard ["spot", "walk"])) (arrival "spot") := by
  obtain ⟨hexact, -, hfinite, hgoals, hruns⟩ :=
    range_by_magnitude ⟨"world", 0, 64, 0⟩ ⟨"world", 0, 64, 3⟩ 5
  refine ⟨?_, ?_, ?_⟩
  · refine (hexact.2.1 (by norm_num)).2 ⟨rfl, lt_of_pow_lt_pow_left₀ 2 (by norm_num) ?_⟩
    rw [Spot.sq_distance]
    norm_num
  · obtain ⟨definition, target, x, _, _, hget, hgoal, -, hnear, -⟩ := exists_of_byway
    have hresolve : (Act.attempt ((Quantity.constant x).resolve (nested 3) ⟨"ann"⟩)).run idle =
        .ok (.ok x, idle) := rfl
    have haim : definition.goal.aim? = some (target, .constant x) := by rw [hgoal, Goal.aim?]
    refine ⟨definition, target, x, hget, hgoal,
      hfinite _ _ _ _ _ _ hget haim _ _ _ _ _ hresolve, ?_⟩
    rw [hgoal, (hgoals _ _ _ _ target _ x hresolve).1, hnear]
    rfl
  · have harrives : arrives orchard ["spot", "walk"] "spot" = true := by decide +kernel
    obtain ⟨e, e', hbefore, hstroll, hnew, harrival⟩ := exists_of_arrives (by decide) harrives
    have htitled : ∀ packages, .replacePackages packages ∈ outing orchard ["spot", "walk"] →
        packages.Titled := fun packages hmem => eq_of_mem_outing hmem ▸ titled_orchard
    exact ⟨e, e', hbefore, hstroll, hnew, harrival, hruns _ _ _ _ _ _ _ _ _ _ htitled hbefore _ _
      _ (.inr ⟨_, rfl⟩) hstroll _ harrival rfl hnew (shuts_spot _)⟩

/-- **A negative range that is reached.**  With exact arithmetic the stile is within -5 of the
hedge, which no distance is below, and not within zero.  The objective with that range is compiled,
and the walk to the stile completes it. -/
theorem negative_range_completes :
    (⟨"world", 0, 64, 0⟩ : Spot ℝ).within ⟨"world", 1, 64, 0⟩ (-5) = true ∧
    ¬ (⟨"world", 0, 64, 0⟩ : Spot ℝ).distance ⟨"world", 1, 64, 0⟩ < -5 ∧
    (⟨"world", 0, 64, 0⟩ : Spot ℝ).within ⟨"world", 1, 64, 0⟩ 0 = false ∧
    ∃ definition target x e e', compiledByway.get .objective (orchardId "back") = .ok definition ∧
      definition.goal = .reach target (.constant x) ∧ x < 0 ∧
      performAll 3 (outing compiledByway ["back"]) idle = .ok e ∧ arrival "back" ∉ e.journal ∧
      e.perform 3 stroll = .ok ((), e') ∧ arrival "back" ∈ e'.journal := by
  obtain
    ⟨definition, target, x, e, e', hget, hgoal, hnegative, -, hbefore, hstroll, hnew, harrival⟩ :=
    exists_of_byway
  refine ⟨?_, fun h => absurd (h.trans (by norm_num)) dist_nonneg.not_gt, Spot.not_within_zero _ _,
    definition, target, x, e, e', hget, hgoal, hnegative, hbefore, hnew, hstroll, harrival⟩
  refine (Spot.within_iff _ _).2 ⟨rfl, lt_of_pow_lt_pow_left₀ 2 (abs_nonneg _) ?_⟩
  rw [Spot.sq_distance]
  norm_num

end Questbook
