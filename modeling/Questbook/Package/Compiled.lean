/-
Questbook/Package/Compiled.lean

Compiled packages: what was written, what was built of it, and what failed.  A set never changes;
a reload makes another one.
-/
import Questbook.Package.Build

namespace Questbook

/-- Compiled packages. -/
structure Packages where
  sources : Sources
  built : Catalogue
  broken : List (Kind × ObjectId)
  diagnostics : List Diagnostic

/-- A definition found by its name. -/
structure Resolved (k : Kind) where
  id : ObjectId
  /-- Whether an exclamation mark negates it; conditions only. -/
  negated : Bool
  target : k.Def

namespace Packages

/-- No packages. -/
def empty : Packages := ⟨Sources.empty, Catalogue.empty, [], []⟩

instance : Inhabited Packages := ⟨empty⟩

/-- Build everything that packages declare.  What fails is recorded and left out. -/
def compile (registry : Registry) (sources : Sources) : Packages :=
  let w := buildAll registry sources
  ⟨sources, w.built, w.broken, w.diagnostics⟩

/-- Whether a definition failed to load. -/
def isBroken (s : Packages) (k : Kind) (id : ObjectId) : Bool := s.broken.contains (k, id)

/-- The definition with an identifier; one that is declared and not there is broken. -/
def get (s : Packages) (k : Kind) (id : ObjectId) : Except NotFound k.Def :=
  match s.sources.check k id with
  | .error e => .error e
  | .ok () =>
    match s.built.find? k id with
    | some d => .ok d
    | none => .error ⟨id, k, .broken⟩

/-- The definition that a name written in a package means.  A condition may be negated. -/
def resolve (s : Packages) (raw : String) (k : Kind) (current : String) :
    Except NotFound (Resolved k) :=
  let (negated, raw) := if k = .condition then stripNegation raw else (false, raw)
  let id := ObjectId.qualify raw current
  (s.get k id).map fun d => ⟨id, negated, d⟩

/-- The identifiers of a kind that were built, in ascending order. -/
def ids (s : Packages) (k : Kind) : List ObjectId := s.built.ids k

end Packages

end Questbook
