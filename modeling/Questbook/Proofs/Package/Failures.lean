/-
Questbook/Proofs/Package/Failures.lean

The failures behind the diagnostics.

A diagnostic keeps the text of an error, and what an error says cannot always be told from its text.
`buildFailures` goes the way of `build` and collects the errors themselves, in the order in which
they are recorded: what a plan has met before it failed, then the failure of the plan.

    (build stack k id w).2.diagnostics
      =  w.diagnostics ++ (buildFailures stack k id w).map diagnostic

So what is said of all failures is said of all diagnostics (`failuresAlong_diagnostics`), and no
definition fails twice (`failuresAlong_keys_nodup`).
-/
import Mathlib.Data.List.Nodup
import Questbook.Proofs.Package.Partition

namespace Questbook

/-- A definition that failed, and why. -/
structure Failure where
  kind : Kind
  id : ObjectId
  line : Option String
  error : BuildError

namespace Failure

/-- The definition that failed. -/
def key (f : Failure) : Kind × ObjectId := (f.kind, f.id)

/-- What is said of a failure. -/
def diagnostic (f : Failure) : Diagnostic := ⟨f.kind, f.id, f.line, f.error.message⟩

end Failure

/-! ### Collecting them -/

/-- The failures met in resolving a reference; `below` has those met in building a definition. -/
def Reference.failures (sources : Sources) (package : String)
    (below : Kind → ObjectId → Workshop → List Failure) (r : Reference) (w : Workshop) :
    List Failure :=
  match r.lead? with
  | none => []
  | some l =>
    match sources.locate l.name l.kind package with
    | .error _ => []
    | .ok id => below l.kind id w

/-- The failures met in carrying a plan out. -/
def Plan.failures {σ α : Type} (sources : Sources) (package : String) (builder : Builder)
    (below : Kind → ObjectId → Workshop → List Failure) : Plan σ α → Workshop → List Failure
  | .done _ _, _ => []
  | .fail _ _, _ => []
  | .refer r _ next, w =>
    r.failures sources package below w ++
      match r.resolve sources package builder w with
      | (.ok t, w) => (next t).failures sources package builder below w
      | (.error _, _) => []

/-- The failures that building a definition comes to; its own is the last one. -/
def buildFailures (registry : Registry) (sources : Sources) (stack : List (Kind × ObjectId))
    (k : Kind) (id : ObjectId) (w : Workshop) : List Failure :=
  match w.built.find? k id with
  | some _ => []
  | none =>
    if w.broken.contains (k, id) then []
    else if _hs : (k, id) ∈ stack then []
    else
      match _hb : blueprint? registry sources k id with
      | none => []
      | some (line, plan) =>
        let deeper : Builder := fun k' id' w' =>
          build registry sources ((k, id) :: stack) k' id' w'
        let below := fun k' id' w' => buildFailures registry sources ((k, id) :: stack) k' id' w'
        plan.failures sources id.package deeper below w ++
          match (plan.run sources id.package deeper w).1 with
          | .ok _ => []
          | .error e => [⟨k, id, line, e⟩]
termination_by room sources stack
decreasing_by exact room_cons_lt (mem_declared_of_blueprint? _hb) _hs

/-- The failures that building definitions one after another comes to. -/
def failuresAlong (registry : Registry) (sources : Sources) :
    List (Kind × ObjectId) → Workshop → List Failure
  | [], _ => []
  | x :: rest, w =>
    buildFailures registry sources [] x.1 x.2 w ++
      failuresAlong registry sources rest (build registry sources [] x.1 x.2 w).2

variable {registry : Registry} {sources : Sources} {package : String} {k : Kind} {id : ObjectId}
variable {stack : List (Kind × ObjectId)} {w w' w'' : Workshop} {fs gs : List Failure}

theorem Reference.failures_of_lead {below : Kind → ObjectId → Workshop → List Failure}
    {r : Reference} {l : Lead r.Target} (hlead : r.lead? = some l) :
    r.failures sources package below w =
      match sources.locate l.name l.kind package with
      | .error _ => []
      | .ok id => below l.kind id w := by
  rw [failures, hlead]

/-! ### They are the diagnostics -/

/-- A workshop has come of another by recording failures, among other things. -/
structure Workshop.Records (w : Workshop) (fs : List Failure) (w' : Workshop) : Prop where
  diagnostics : w'.diagnostics = w.diagnostics ++ fs.map Failure.diagnostic
  broken : w'.broken = (fs.map Failure.key).reverse ++ w.broken

namespace Workshop.Records

theorem refl (w : Workshop) : w.Records [] w := ⟨by simp, by simp⟩

theorem trans (h : w.Records fs w') (h' : w'.Records gs w'') : w.Records (fs ++ gs) w'' where
  diagnostics := by rw [h'.diagnostics, h.diagnostics, List.map_append, List.append_assoc]
  broken := by rw [h'.broken, h.broken, List.map_append, List.reverse_append, List.append_assoc]

theorem keep (h : w.Records fs w') (d : k.Def) : w.Records fs (w'.keep k id d) :=
  ⟨h.diagnostics, h.broken⟩

theorem record (h : w.Records fs w') (line : Option String) (e : BuildError) :
    w.Records (fs ++ [⟨k, id, line, e⟩]) (w'.record k id line e) :=
  h.trans ⟨rfl, rfl⟩

end Workshop.Records

theorem Reference.failures_records {builder : Builder}
    {below : Kind → ObjectId → Workshop → List Failure}
    (hbuilder : ∀ k id (w : Workshop), w.Records (below k id w) (builder k id w).2)
    (r : Reference) :
    w.Records (r.failures sources package below w) (r.resolve sources package builder w).2 := by
  rcases r.lead_or_objective with ⟨l, hlead⟩ | ⟨raw, rfl⟩
  · rw [failures_of_lead hlead, resolve_of_lead hlead]
    cases sources.locate l.name l.kind package with
    | error e => exact .refl w
    | ok id => exact hbuilder l.kind id w
  · exact .refl w

theorem Plan.failures_records {σ α : Type} {builder : Builder}
    {below : Kind → ObjectId → Workshop → List Failure}
    (hbuilder : ∀ k id (w : Workshop), w.Records (below k id w) (builder k id w).2)
    (plan : Plan σ α) :
    w.Records (plan.failures sources package builder below w)
      (plan.run sources package builder w).2.2 := by
  induction plan generalizing w with
  | done a s => exact .refl w
  | fail e s => exact .refl w
  | refer r s next ih =>
    have hresolve : w.Records (r.failures sources package below w)
        (r.resolve sources package builder w).2 := Reference.failures_records hbuilder r
    rcases hresult : r.resolve sources package builder w with ⟨e | t, w'⟩
    · rw [hresult] at hresolve
      rw [Plan.run, Plan.failures, hresult, List.append_nil]
      exact hresolve
    · rw [hresult] at hresolve
      rw [Plan.run, Plan.failures, hresult]
      exact hresolve.trans (ih t)

/-- Where no plan is carried out, nothing fails. -/
theorem buildFailures_eq_nil (h : w.built.find? k id = none → w.broken.contains (k, id) = false →
    (k, id) ∉ stack → blueprint? registry sources k id = none) :
    buildFailures registry sources stack k id w = [] := by
  rw [buildFailures]
  split
  · rfl
  · rename_i hfind
    split_ifs with hbroken hstack
    · rfl
    · rfl
    · have hnone := h hfind (Bool.eq_false_iff.2 hbroken) hstack
      split
      · rfl
      · rename_i hblueprint
        rw [hnone] at hblueprint
        cases hblueprint

/-- A plan that is carried out fails after what it has met. -/
theorem buildFailures_of_blueprint {line : Option String} {plan : Plan Unit k.Def}
    (hfind : w.built.find? k id = none) (hbroken : ¬ w.broken.contains (k, id) = true)
    (hstack : (k, id) ∉ stack) (hblueprint : blueprint? registry sources k id = some (line, plan)) :
    buildFailures registry sources stack k id w =
      plan.failures sources id.package (build registry sources ((k, id) :: stack))
          (buildFailures registry sources ((k, id) :: stack)) w ++
        match (plan.run sources id.package (build registry sources ((k, id) :: stack)) w).1 with
        | .ok _ => []
        | .error e => [⟨k, id, line, e⟩] := by
  rw [buildFailures]
  simp only [hfind, hbroken, hstack, if_false, dite_false, Bool.false_eq_true]
  split
  · rename_i hnone
    rw [hblueprint] at hnone
    cases hnone
  · rename_i line' plan' hsome
    rw [hblueprint] at hsome
    cases hsome
    rfl

/-- Building a definition records the failures that it comes to. -/
theorem buildFailures_records :
    w.Records (buildFailures registry sources stack k id w)
      (build registry sources stack k id w).2 := by
  -- Only where a plan has been carried out does anything fail.
  fun_induction build registry sources stack k id w with
  | case1 stack k id w d hfind =>
    rw [buildFailures_eq_nil fun hnone => by rw [hfind] at hnone; cases hnone]
    exact .refl w
  | case2 stack k id w hfind hbroken =>
    rw [buildFailures_eq_nil fun _ hnot => by rw [hbroken] at hnot; cases hnot]
    exact .refl w
  | case3 stack k id w hfind hbroken hstack =>
    rw [buildFailures_eq_nil fun _ _ hnot => absurd hstack hnot]
    exact .refl w
  | case4 stack k id w hfind hbroken hstack hblueprint =>
    rw [buildFailures_eq_nil fun _ _ _ => hblueprint]
    exact .refl w
  | case5 stack k id w hfind hbroken hstack line plan hblueprint deeper d s w' hrun ih =>
    have hplan : w.Records (plan.failures sources id.package deeper
        (buildFailures registry sources ((k, id) :: stack)) w)
        (plan.run sources id.package deeper w).2.2 := Plan.failures_records ih plan
    rw [buildFailures_of_blueprint hfind hbroken hstack hblueprint]
    rw [hrun] at hplan ⊢
    rw [List.append_nil]
    exact hplan.keep d
  | case6 stack k id w hfind hbroken hstack line plan hblueprint deeper e s w' hrun ih =>
    have hplan : w.Records (plan.failures sources id.package deeper
        (buildFailures registry sources ((k, id) :: stack)) w)
        (plan.run sources id.package deeper w).2.2 := Plan.failures_records ih plan
    rw [buildFailures_of_blueprint hfind hbroken hstack hblueprint]
    rw [hrun] at hplan ⊢
    exact hplan.record line e

/-- So does building definitions one after another. -/
theorem failuresAlong_records (order : List (Kind × ObjectId)) (w : Workshop) :
    w.Records (failuresAlong registry sources order w) (buildAlong registry sources order w) := by
  induction order generalizing w with
  | nil => exact .refl w
  | cons x rest ih => exact buildFailures_records.trans (ih _)

section

variable (order : List (Kind × ObjectId))

/-- What is broken in the end is what has failed. -/
theorem failuresAlong_keys : (failuresAlong registry sources order Workshop.empty).map Failure.key =
    (buildAlong registry sources order Workshop.empty).broken.reverse := by
  rw [(failuresAlong_records order Workshop.empty).broken]
  simp [Workshop.empty]

/-- No definition fails twice. -/
theorem failuresAlong_keys_nodup :
    ((failuresAlong registry sources order Workshop.empty).map Failure.key).Nodup := by
  rw [failuresAlong_keys]
  exact List.nodup_reverse.2 (buildAlong_broken_nodup order)

/-- A definition that has failed has failed once. -/
theorem failuresAlong_countP {f : Failure}
    (hf : f ∈ failuresAlong registry sources order Workshop.empty) (hkey : f.key = (k, id)) :
    (failuresAlong registry sources order Workshop.empty).countP
      (fun f => f.kind = k ∧ f.id = id) = 1 := by
  have hcount : (failuresAlong registry sources order Workshop.empty).countP
      (fun f => f.kind = k ∧ f.id = id) =
      ((failuresAlong registry sources order Workshop.empty).map Failure.key).count (k, id) := by
    rw [List.count, List.countP_map]
    refine List.countP_congr fun f _ => ?_
    simp [Failure.key]
  rw [hcount]
  exact List.count_eq_one_of_mem (failuresAlong_keys_nodup order) (hkey ▸ List.mem_map_of_mem hf)

end

end Questbook
