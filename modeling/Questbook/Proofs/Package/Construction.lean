/-
Questbook/Proofs/Package/Construction.lean

Construction, moment by moment.

`build` hands the definitions under construction down as an argument.  Here they are a stack that is
part of a state: a definition is put on it before its plan is carried out, and taken off when the
plan has come to an end, whether it succeeded or failed.  Who waits for a definition, and for what,
is kept apart from that stack, as `Caller`; `step?` goes from one moment to the next.

    asked k id c, stack, w   →*   answered (build stack k id w).1 c, stack, (build stack k id w).2

So the states go where `build` goes and come to a halt where it does (`asked_reaches`), with the
stack as it was.  And what is on the stack at any moment are those who wait, which one step after
the other keeps different from each other and declared (`Sound.step`).

Main result: `construction_terminates`.
-/
import Mathlib.Computability.StateTransition
import Mathlib.Data.List.Nodup
import Questbook.Proofs.Package.Compile
import Questbook.Proofs.Package.Evaluate
import Questbook.Proofs.Package.Merging

namespace Questbook

open StateTransition

/-! ### What a reference asks for -/

/-- What has to be done for a reference that leads somewhere: nothing, or a definition has to be
built. -/
inductive Reference.Need (r : Reference) where
  | nothing (t : r.Target)
  | definition (k : Kind) (id : ObjectId) (give : k.Def → r.Target)

/-- What has to be done for a reference that is written in a package. -/
def Reference.need (sources : Sources) (package : String) :
    (r : Reference) → Except NotFound r.Need
  | .condition raw =>
    let (negated, raw) := stripNegation raw
    (sources.locate raw .condition package).map fun id =>
      .definition .condition id fun d => ⟨id, negated, d⟩
  | .event raw =>
    (sources.locate raw .event package).map fun id => .definition .event id fun d => ⟨id, d⟩
  | .var raw => (sources.locate raw .var package).map fun id => .definition .var id fun d => ⟨id, d⟩
  | .item raw => (sources.locate raw .item package).map fun id => .definition .item id fun d => d
  | .objective raw => (sources.locate raw .objective package).map .nothing

theorem Reference.resolve_eq_need (sources : Sources) (package : String) (builder : Builder)
    (r : Reference) (w : Workshop) : r.resolve sources package builder w =
      match r.need sources package with
      | .error e => (.error e, w)
      | .ok (.nothing t) => (.ok t, w)
      | .ok (.definition k id give) => ((builder k id w).1.map give, (builder k id w).2) := by
  cases r with
  | objective raw =>
    simp only [resolve, need]
    cases sources.locate raw .objective package <;> rfl
  | condition raw | event raw | var raw | item raw =>
    rw [resolve_of_lead rfl]
    simp only [need]
    cases sources.locate _ _ package <;> rfl

/-! ### States -/

namespace Construction

/-- Who waits for a definition of a kind: nobody but the one who began, or a definition whose plan
goes on with the answer, and for which someone waits in turn. -/
inductive Caller : Kind → Type
  | outset {k : Kind} : Caller k
  | definition {k k' : Kind} (id : ObjectId) (line : Option String)
      (resume : Except NotFound k'.Def → Plan Unit k.Def) (caller : Caller k) : Caller k'

/-- The definitions that wait, the innermost first. -/
def Caller.waiting {k : Kind} : Caller k → List (Kind × ObjectId)
  | outset => []
  | definition (k := k) id _ _ caller => (k, id) :: caller.waiting

/-- What is going on. -/
inductive Moment where
  /-- No definition is asked for: the next one may begin. -/
  | between
  | asked (k : Kind) (id : ObjectId) (caller : Caller k)
  /-- The plan of a definition is being carried out; this is what is left of it. -/
  | working (k : Kind) (id : ObjectId) (line : Option String) (plan : Plan Unit k.Def)
      (caller : Caller k)
  | answered (k : Kind) (answer : Except NotFound k.Def) (caller : Caller k)

/-- The definitions whose plans are being carried out or wait, the innermost first. -/
def Moment.waiting : Moment → List (Kind × ObjectId)
  | between => []
  | asked _ _ caller => caller.waiting
  | working k id _ _ caller => (k, id) :: caller.waiting
  | answered _ _ caller => caller.waiting

/-- A state of construction. -/
structure State where
  moment : Moment
  /-- The definitions under construction, the newest first. -/
  stack : List (Kind × ObjectId)
  /-- The definitions that are still to be begun with. -/
  ahead : List (Kind × ObjectId)
  workshop : Workshop

/-- The state before anything is built. -/
def start (sources : Sources) : State := ⟨.between, [], schedule sources, Workshop.empty⟩

/-- Go on with a plan that waits for a definition. -/
def resume {σ α : Type} {k : Kind} {r : Reference} (s : σ) (next : r.Target → Plan σ α)
    (give : k.Def → r.Target) : Except NotFound k.Def → Plan σ α
  | .ok d => next (give d)
  | .error e => .fail (.notFound e) s

variable (registry : Registry) (sources : Sources)

/-- From one moment to the next; nothing more when all has been begun with and is done. -/
def step? (m : State) : Option State :=
  match m.moment with
  | .between =>
    match m.ahead with
    | [] => none
    | (k, id) :: ahead => some { m with moment := .asked k id .outset, ahead }
  | .asked k id caller =>
    match m.workshop.built.find? k id with
    | some d => some { m with moment := .answered k (.ok d) caller }
    | none =>
      if m.workshop.broken.contains (k, id) then
        some { m with moment := .answered k (.error ⟨id, k, .broken⟩) caller }
      else if m.stack.contains (k, id) then
        some { m with
          moment := .answered k (.error ⟨id, k, .cycle (cyclePath m.stack k id)⟩) caller }
      else
        match blueprint? registry sources k id with
        | none => some { m with moment := .answered k (.error ⟨id, k, .unknownName⟩) caller }
        | some (line, plan) =>
          some { m with moment := .working k id line plan caller, stack := (k, id) :: m.stack }
  | .working k id line plan caller =>
    match plan with
    | .done d _ =>
      some { m with
        moment := .answered k (.ok d) caller
        stack := m.stack.tail
        workshop := m.workshop.keep k id d }
    | .fail e _ =>
      some { m with
        moment := .answered k (.error (e.seenBy k id)) caller
        stack := m.stack.tail
        workshop := m.workshop.record k id line e }
    | .refer r s next =>
      match r.need sources id.package with
      | .error e => some { m with moment := .working k id line (.fail (.notFound e) s) caller }
      | .ok (.nothing t) => some { m with moment := .working k id line (next t) caller }
      | .ok (.definition k' id' give) =>
        some { m with
          moment := .asked k' id' (.definition id line (resume s next give) caller) }
  | .answered _ answer caller =>
    match caller with
    | .outset => some { m with moment := .between }
    | .definition (k := k) id line resume caller =>
      some { m with moment := .working k id line (resume answer) caller }

variable {registry sources}

/-! ### The states go where `build` goes -/

section

variable {k : Kind} {id : ObjectId} {stack ahead : List (Kind × ObjectId)} {w : Workshop}

/-- The end of a plan with an answer. -/
def ending {σ α : Type} (answer : Except BuildError α) (s : σ) : Plan σ α :=
  match answer with
  | .ok a => .done a s
  | .error e => .fail e s

/-- A plan is carried out up to its end, if whatever it asks for is answered. -/
theorem working_reaches {deeper : Builder} {line : Option String} {caller : Caller k}
    (hdeeper : ∀ k' id' w' (caller' : Caller k'), Reaches (step? registry sources)
      ⟨.asked k' id' caller', stack, ahead, w'⟩
      ⟨.answered k' (deeper k' id' w').1 caller', stack, ahead, (deeper k' id' w').2⟩)
    (plan : Plan Unit k.Def) :
    Reaches (step? registry sources) ⟨.working k id line plan caller, stack, ahead, w⟩
      ⟨.working k id line (ending (plan.run sources id.package deeper w).1
        (plan.run sources id.package deeper w).2.1) caller, stack, ahead,
        (plan.run sources id.package deeper w).2.2⟩ := by
  induction plan generalizing w with
  | done d s => exact .refl
  | fail e s => exact .refl
  | refer r s next ih =>
    rw [Plan.run, Reference.resolve_eq_need]
    cases hneed : r.need sources id.package with
    | error e =>
      exact .single (by simp [step?, hneed, ending])
    | ok need =>
      cases need with
      | nothing t =>
        refine .head (b := ⟨.working k id line (next t) caller, stack, ahead, w⟩)
          (by simp [step?, hneed]) ?_
        exact ih t
      | definition k' id' give =>
        -- The definition is asked for, it is answered, and the plan goes on with the answer.
        refine .head (b := ⟨.asked k' id' (.definition id line (resume s next give) caller), stack,
          ahead, w⟩) (by simp [step?, hneed]) ((hdeeper k' id' w _).trans ?_)
        dsimp only
        rcases deeper k' id' w with ⟨err | d, w'⟩
        · exact .single rfl
        · exact .head rfl (ih (give d))

/-- **A definition that is asked for is answered**, as `build` answers, with the stack as it was. -/
theorem asked_reaches (caller : Caller k) : Reaches (step? registry sources)
    ⟨.asked k id caller, stack, ahead, w⟩
    ⟨.answered k (build registry sources stack k id w).1 caller, stack, ahead,
      (build registry sources stack k id w).2⟩ := by
  fun_induction build registry sources stack k id w with
  | case1 stack k id w d hfind => exact .single (by simp [step?, hfind])
  | case2 stack k id w hfind hbroken =>
    rw [List.contains_iff_mem] at hbroken
    exact .single (by simp [step?, hfind, hbroken])
  | case3 stack k id w hfind hbroken hstack =>
    rw [List.contains_iff_mem] at hbroken
    exact .single (by simp [step?, hfind, hbroken, hstack])
  | case4 stack k id w hfind hbroken hstack hblueprint =>
    rw [List.contains_iff_mem] at hbroken
    exact .single (by simp [step?, hfind, hbroken, hstack, hblueprint])
  | case5 stack k id w hfind hbroken hstack line plan hblueprint deeper d s w' hrun ih =>
    have hplan : Reaches (step? registry sources)
        ⟨.working k id line plan caller, (k, id) :: stack, ahead, w⟩ _ :=
      working_reaches (fun k' id' w' caller' => ih k' id' w' caller') plan
    rw [hrun] at hplan
    rw [List.contains_iff_mem] at hbroken
    refine .head (b := ⟨.working k id line plan caller, (k, id) :: stack, ahead, w⟩)
      (by simp [step?, hfind, hbroken, hstack, hblueprint]) (hplan.tail rfl)
  | case6 stack k id w hfind hbroken hstack line plan hblueprint deeper e s w' hrun ih =>
    have hplan : Reaches (step? registry sources)
        ⟨.working k id line plan caller, (k, id) :: stack, ahead, w⟩ _ :=
      working_reaches (fun k' id' w' caller' => ih k' id' w' caller') plan
    rw [hrun] at hplan
    rw [List.contains_iff_mem] at hbroken
    refine .head (b := ⟨.working k id line plan caller, (k, id) :: stack, ahead, w⟩)
      (by simp [step?, hfind, hbroken, hstack, hblueprint]) (hplan.tail rfl)

/-- One definition after the other is begun with and answered. -/
theorem between_reaches (done : List (Kind × ObjectId)) (w : Workshop) :
    Reaches (step? registry sources) ⟨.between, [], done ++ ahead, w⟩
      ⟨.between, [], ahead, buildAlong registry sources done w⟩ := by
  induction done generalizing w with
  | nil => exact .refl
  | cons d rest ih =>
    exact .head rfl (((asked_reaches .outset).tail rfl).trans (ih _))

end

/-! ### What is on the stack -/

/-- The stack has those who wait on it, and they are different from each other and declared. -/
structure Sound (sources : Sources) (m : State) : Prop where
  stack_eq : m.stack = m.moment.waiting
  nodup : m.stack.Nodup
  declared : ∀ x ∈ m.stack, x ∈ sources.declared

variable {m m' : State}

theorem Sound.start (sources : Sources) : Sound sources (start sources) :=
  ⟨rfl, List.nodup_nil, nofun⟩

/-- Nothing has been put on the stack or taken off it. -/
theorem Sound.of_stack_eq (h : Sound sources m) (hstack : m'.stack = m.stack)
    (hwaiting : m'.moment.waiting = m.moment.waiting) : Sound sources m' where
  stack_eq := hstack.trans (h.stack_eq.trans hwaiting.symm)
  nodup := hstack ▸ h.nodup
  declared := hstack ▸ h.declared

/-- The newest definition has been taken off the stack, and waits no longer. -/
theorem Sound.pop {x : Kind × ObjectId} (h : Sound sources m) (hstack : m'.stack = m.stack.tail)
    (hwaiting : m.moment.waiting = x :: m'.moment.waiting) : Sound sources m' where
  stack_eq := by rw [hstack, h.stack_eq, hwaiting, List.tail_cons]
  nodup := hstack ▸ h.nodup.tail
  declared y hy := h.declared y (List.mem_of_mem_tail (hstack ▸ hy))

/-- Only what is declared and not on the stack is put on it. -/
theorem Sound.step (h : Sound sources m) (hstep : step? registry sources m = some m') :
    Sound sources m' := by
  obtain ⟨moment, stack, ahead, w⟩ := m
  cases moment with
  | between =>
    cases ahead with
    | nil => cases hstep
    | cons d ahead =>
      cases hstep
      exact h.of_stack_eq rfl rfl
  | asked k id caller =>
    simp only [step?] at hstep
    split at hstep
    · cases hstep
      exact h.of_stack_eq rfl rfl
    · split at hstep
      · cases hstep
        exact h.of_stack_eq rfl rfl
      · split at hstep
        · cases hstep
          exact h.of_stack_eq rfl rfl
        · next hstack =>
          split at hstep
          · cases hstep
            exact h.of_stack_eq rfl rfl
          · next line plan hblueprint =>
            cases hstep
            -- Only here the stack grows, and by what is declared and not on it.
            refine ⟨congrArg _ h.stack_eq, List.nodup_cons.2 ⟨by simpa using hstack, h.nodup⟩, ?_⟩
            exact List.forall_mem_cons.2 ⟨mem_declared_of_blueprint? hblueprint, h.declared⟩
  | working k id line plan caller =>
    cases plan with
    | done d s =>
      cases hstep
      exact h.pop rfl rfl
    | fail e s =>
      cases hstep
      exact h.pop rfl rfl
    | refer r s next =>
      simp only [step?] at hstep
      split at hstep <;> cases hstep <;> exact h.of_stack_eq rfl rfl
  | answered k answer caller =>
    cases caller with
    | outset | definition =>
      cases hstep
      exact h.of_stack_eq rfl rfl

/-- At every moment the stack has those who wait on it. -/
theorem sound_of_reaches (h : Reaches (step? registry sources) (start sources) m) :
    Sound sources m := by
  induction h with
  | refl => exact Sound.start sources
  | tail _ hstep ih => exact ih.step hstep

theorem Sound.length_le (h : Sound sources m) : m.stack.length ≤ sources.declared.length :=
  (List.subperm_of_subset h.nodup h.declared).length_le

/-- Nobody waits between definitions that are begun with. -/
theorem Sound.stack_eq_nil (h : Sound sources m) (hmoment : m.moment = .between) :
    m.stack = [] := by
  rw [h.stack_eq, hmoment]
  rfl

end Construction

/-! ### How many definitions are declared -/

/-- Every definition is declared once. -/
theorem Sources.nodup_declared (sources : Sources) : sources.declared.Nodup := by
  refine List.nodup_flatMap.2 ⟨fun e _ => ?_, ?_⟩
  · refine e.2.nodup_declarations.map ?_
    rintro ⟨k, name⟩ ⟨k', name'⟩ heq
    cases heq
    rfl
  · refine (List.pairwise_map.1 sources.packages.distinct).imp fun {e e'} hne => ?_
    intro x hx hx'
    obtain ⟨d, -, rfl⟩ := List.mem_map.1 hx
    obtain ⟨d', -, heq⟩ := List.mem_map.1 hx'
    exact hne (ObjectId.mk.inj (Prod.mk.inj heq).2).1.symm

open Construction in
/-- **Construction comes to an end**, whatever is written and whatever the keywords build of it.  It
begins with one declared definition after the other, and answers each of them; when all are done, it
halts with what is compiled.  At every moment the definitions under construction are different from
each other and declared, so that there are never more of them than are declared (and nothing is
declared twice); and whenever one that was begun with has been answered, built or not, none is left
under construction. -/
theorem construction_terminates (registry : Registry) (sources : Sources) :
    (∃ m ∈ eval (step? registry sources) (start sources), Packages.compile registry sources =
      ⟨sources, m.workshop.built, m.workshop.broken, m.workshop.diagnostics⟩) ∧
    (∀ done ahead, schedule sources = done ++ ahead →
      Reaches (step? registry sources) (start sources)
        ⟨.between, [], ahead, buildAlong registry sources done Workshop.empty⟩) ∧
    sources.declared.Nodup ∧ ∀ m, Reaches (step? registry sources) (start sources) m →
      m.stack.Nodup ∧ (∀ x ∈ m.stack, x ∈ sources.declared) ∧
      m.stack.length ≤ sources.declared.length ∧ (m.moment = .between → m.stack = []) := by
  have houtset : ∀ done ahead, schedule sources = done ++ ahead →
      Reaches (step? registry sources) (start sources)
        ⟨.between, [], ahead, buildAlong registry sources done Workshop.empty⟩ := by
    intro done ahead hschedule
    rw [start, hschedule]
    exact between_reaches done Workshop.empty
  refine ⟨⟨_, mem_eval.2 ⟨houtset _ [] (List.append_nil _).symm, rfl⟩, rfl⟩, houtset,
    sources.nodup_declared, ?_⟩
  intro m hm
  have hsound := sound_of_reaches hm
  exact ⟨hsound.nodup, hsound.declared, hsound.length_le, hsound.stack_eq_nil⟩

/-- Three wolves, each of which is like the next one. -/
def ring : Sources where
  packages := (∅ : Table String PackageSource).insert "ring" { PackageSource.empty with
    conditions := .ofList [("a", "like b"), ("b", "like c"), ("c", "like a")] }

namespace Construction

/-- The state after so many moments. -/
def after (registry : Registry) (sources : Sources) : Nat → State → Option State
  | 0, m => some m
  | n + 1, m => (step? registry sources m).bind (after registry sources n)

theorem reaches_of_after {registry : Registry} {sources : Sources} {n : Nat} {m m' : State}
    (h : after registry sources n m = some m') : Reaches (step? registry sources) m m' := by
  induction n generalizing m with
  | zero =>
    cases h
    exact .refl
  | succ n ih =>
    obtain ⟨m₁, hstep, hrest⟩ := Option.bind_eq_some_iff.1 h
    exact .head hstep (ih hrest)

end Construction

open Construction in
/-- The three are under construction at once, before the cycle is met; so deep it goes and no
deeper. -/
theorem construction_terminates_of_ring : ∃ m, Reaches (step? manners ring) (start ring) m ∧
    m.stack.map (·.2.name) = ["c", "b", "a"] ∧ m.stack.Nodup ∧
    m.stack.length = ring.declared.length ∧
    Reaches (step? manners ring) (start ring) ⟨.between, [], [(.condition, ⟨"ring", "c"⟩)],
      buildAlong manners ring [(.condition, ⟨"ring", "a"⟩), (.condition, ⟨"ring", "b"⟩)]
        Workshop.empty⟩ := by
  have hschedule : schedule ring = [(.condition, ⟨"ring", "a"⟩), (.condition, ⟨"ring", "b"⟩),
      (.condition, ⟨"ring", "c"⟩)] :=
    (schedule_eq_written (by decide +kernel)).trans (by decide)
  have hafter : ((after manners ring 6 (start ring)).map fun m => m.stack.map (·.2.name)) =
      some ["c", "b", "a"] := by
    rw [start, hschedule]
    decide +kernel
  obtain ⟨m, hm, hstack⟩ := Option.map_eq_some_iff.1 hafter
  have hreaches := reaches_of_after hm
  obtain ⟨-, hbetween, -, hmoments⟩ := construction_terminates manners ring
  refine ⟨m, hreaches, hstack, (hmoments m hreaches).1, ?_, hbetween _ _ hschedule⟩
  rw [← List.length_map (·.2.name), hstack]
  decide

end Questbook
