/-
Questbook/Package/Build.lean

Building definitions in the order of their references.

`build` visits a definition, and through its references those it needs, depth first.  What is
built is kept, so every definition is built once; what failed is kept too, and refused from then
on.  The definitions being built form a stack, and meeting one of them again is a reference cycle:
the error that reports it passes through every definition on the way unchanged, while any other
failure is seen from outside as a broken definition.

The search ends because the stack holds declared definitions only, each at most once, so that
with every step down fewer of them are left.
-/
import Questbook.Package.Source
import Questbook.Quest.Vocabulary
import Questbook.Talk.Plan

namespace Questbook

/-- A definition that failed to load. -/
structure Diagnostic where
  kind : Kind
  id : ObjectId
  /-- Its line; conversations have none. -/
  line : Option String
  message : String
deriving DecidableEq, Repr

/-- What building has come to: the definitions built, those broken, and the diagnostics in the
order in which they were found. -/
structure Workshop where
  built : Catalogue
  broken : List (Kind × ObjectId)
  diagnostics : List Diagnostic

namespace Workshop

/-- Nothing built yet. -/
def empty : Workshop := ⟨Catalogue.empty, [], []⟩

/-- Keep a built definition. -/
def keep (w : Workshop) (k : Kind) (id : ObjectId) (d : k.Def) : Workshop :=
  { w with built := w.built.add k id d }

/-- Record a failed definition. -/
def record (w : Workshop) (k : Kind) (id : ObjectId) (line : Option String)
    (e : BuildError) : Workshop :=
  { w with
    broken := (k, id) :: w.broken
    diagnostics := w.diagnostics ++ [⟨k, id, line, e.message⟩] }

end Workshop

/-- What a definition that refers to a failed one is told: a cycle as it is, anything else as a
broken definition. -/
def BuildError.seenBy (e : BuildError) (k : Kind) (id : ObjectId) : NotFound :=
  match e with
  | .notFound ⟨i, k', .cycle path⟩ => ⟨i, k', .cycle path⟩
  | _ => ⟨id, k, .broken⟩

/-! ### Running a plan -/

/-- A way to build the definition of a kind with an identifier. -/
abbrev Builder := (k : Kind) → ObjectId → Workshop → Except NotFound k.Def × Workshop

/-- Resolve a reference that is written in a package. -/
def Reference.resolve (sources : Sources) (package : String) (builder : Builder)
    (r : Reference) (w : Workshop) : Except NotFound r.Target × Workshop :=
  let built (k : Kind) (raw : String) : Except NotFound (ObjectId × k.Def) × Workshop :=
    match sources.locate raw k package with
    | .error e => (.error e, w)
    | .ok id =>
      let (result, w) := builder k id w
      (result.map (id, ·), w)
  match r with
  | .condition raw =>
    let (negated, raw) := stripNegation raw
    let (result, w) := built .condition raw
    (result.map fun d => ⟨d.1, negated, d.2⟩, w)
  | .event raw =>
    let (result, w) := built .event raw
    (result.map fun d => ⟨d.1, d.2⟩, w)
  | .var raw =>
    let (result, w) := built .var raw
    (result.map fun d => ⟨d.1, d.2⟩, w)
  | .item raw =>
    let (result, w) := built .item raw
    (result.map fun d => d.2, w)
  -- An objective is only named, so that two of them may refer to each other.
  | .objective raw => (sources.locate raw .objective package, w)

/-- Carry a plan out: its answer, what it left of what it read from, and the workshop. -/
def Plan.run {σ α : Type} (sources : Sources) (package : String) (builder : Builder) :
    Plan σ α → Workshop → Except BuildError α × σ × Workshop
  | .done a s, w => (.ok a, s, w)
  | .fail e s, w => (.error e, s, w)
  | .refer r s next, w =>
    match r.resolve sources package builder w with
    | (.ok t, w) => (next t).run sources package builder w
    | (.error e, w) => (.error (.notFound e), s, w)

/-! ### Blueprints -/

/-- The plan for the line of a definition. -/
def linePlan {α : Type} (id : ObjectId) (line : String) (draft : LineDraft α) : Plan Unit α :=
  match Line.parse id line with
  | .ok l => (draft l).forget
  | .error e => .fail (.parse e) ()

/-- The line of a declared definition and the plan to build it. -/
def blueprint? (registry : Registry) (sources : Sources) :
    (k : Kind) → (id : ObjectId) → Option (Option String × Plan Unit k.Def)
  | .condition, id => (sources.line? .condition id).map fun l =>
      (some l, linePlan id l registry.condition)
  | .event, id => (sources.line? .event id).map fun l => (some l, linePlan id l registry.event)
  | .objective, id => (sources.line? .objective id).map fun l =>
      (some l, linePlan id l (registry.objective id))
  | .var, id => (sources.line? .var id).map fun l => (some l, linePlan id l registry.var)
  | .item, id => (sources.line? .item id).map fun l => (some l, linePlan id l Registry.item)
  | .conversation, id => (sources.conversation? id).map fun c =>
      (none, c.draft registry id ())

theorem mem_declared_of_blueprint? {registry : Registry} {sources : Sources} {k : Kind}
    {id : ObjectId} {b : Option String × Plan Unit k.Def}
    (h : blueprint? registry sources k id = some b) : (k, id) ∈ sources.declared := by
  cases k with
  | conversation =>
    obtain ⟨c, hc, -⟩ := Option.map_eq_some_iff.1 h
    exact Sources.mem_declared_of_conversation? hc
  | _ =>
    obtain ⟨l, hl, -⟩ := Option.map_eq_some_iff.1 h
    exact Sources.mem_declared_of_line? hl

/-! ### The search -/

/-- How many declared definitions are not being built. -/
def room (sources : Sources) (stack : List (Kind × ObjectId)) : Nat :=
  (sources.declared.filter fun d => !stack.contains d).length

theorem room_cons_lt {sources : Sources} {stack : List (Kind × ObjectId)} {d : Kind × ObjectId}
    (hd : d ∈ sources.declared) (hs : d ∉ stack) :
    room sources (d :: stack) < room sources stack := by
  have hsub : (sources.declared.filter fun x => !(d :: stack).contains x) =
      (sources.declared.filter fun x => !stack.contains x).filter fun x => x ≠ d := by
    rw [List.filter_filter]
    congr 1
    funext x
    by_cases hx : x = d <;> simp [hx]
  unfold room
  rw [hsub]
  refine List.length_filter_lt_length_iff_exists.2 ⟨d, ?_, by simp⟩
  exact List.mem_filter.2 ⟨hd, by simpa using hs⟩

/-- The path of a reference cycle: from a definition on the stack, the newest first, through those
built after it and back to it. -/
def cyclePath (stack : List (Kind × ObjectId)) (k : Kind) (id : ObjectId) : List ObjectId :=
  id :: ((stack.takeWhile (· ≠ (k, id))).reverse.map Prod.snd ++ [id])

/-- Build a definition, and before it those it refers to, unless that is done or cannot be. -/
def build (registry : Registry) (sources : Sources) (stack : List (Kind × ObjectId))
    (k : Kind) (id : ObjectId) (w : Workshop) : Except NotFound k.Def × Workshop :=
  match w.built.find? k id with
  | some d => (.ok d, w)
  | none =>
    -- What has failed is not tried again, so that it is reported once.
    if w.broken.contains (k, id) then (.error ⟨id, k, .broken⟩, w)
    else if _hs : (k, id) ∈ stack then (.error ⟨id, k, .cycle (cyclePath stack k id)⟩, w)
    else
      match _hb : blueprint? registry sources k id with
      | none => (.error ⟨id, k, .unknownName⟩, w)
      | some (line, plan) =>
        let deeper : Builder := fun k' id' w' =>
          build registry sources ((k, id) :: stack) k' id' w'
        match plan.run sources id.package deeper w with
        | (.ok d, _, w) => (.ok d, w.keep k id d)
        | (.error e, _, w) => (.error (e.seenBy k id), w.record k id line e)
termination_by room sources stack
decreasing_by exact room_cons_lt (mem_declared_of_blueprint? _hb) _hs

/-- Carry a draft out over declared definitions, in a workshop of its own: its answer and what it
leaves of what it reads from. -/
def Draft.carryOut {σ α : Type} (registry : Registry) (sources : Sources) (package : String)
    (draft : Draft σ α) (s : σ) : Except BuildError α × σ :=
  let (answer, s, _) := (draft s).run sources package (build registry sources []) Workshop.empty
  (answer, s)

/-- Every declared definition in the order of building: by package, then by kind, then by name. -/
def schedule (sources : Sources) : List (Kind × ObjectId) :=
  sources.names.flatMap fun package =>
    match sources.packages.find? package with
    | none => []
    | some p =>
      [Kind.var, .item, .condition, .event, .objective, .conversation].flatMap fun k =>
        (p.names k).map fun name => (k, ⟨package, name⟩)

/-- Build definitions, and those they refer to, one after another. -/
def buildAlong (registry : Registry) (sources : Sources) (order : List (Kind × ObjectId))
    (w : Workshop) : Workshop :=
  order.foldl (fun w d => (build registry sources [] d.1 d.2 w).2) w

/-- Build every declared definition. -/
def buildAll (registry : Registry) (sources : Sources) : Workshop :=
  buildAlong registry sources (schedule sources) Workshop.empty

end Questbook
