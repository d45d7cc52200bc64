/-
Questbook/Package/Source.lean

Packages as they are written.

A package has a section of lines for each kind of definition, and conversations, which are not
lines but graphs.  Packages of one name are merged: the later one wins, and what both declare is
reported.  `Sources` holds all packages by name and answers where a name leads.
-/
import Questbook.Error
import Questbook.Table

namespace Questbook

/-! ### One package -/

/-- A line of an NPC or a reply as it is written. -/
structure OptionSource where
  text : String
  conditions : List String
  events : List String
  pointers : List String

/-- A conversation as it is written. -/
structure ConversationSource where
  quester : String
  first : List String
  screen : Option String
  finalEvents : List String
  npcOptions : Table String OptionSource
  playerOptions : Table String OptionSource

/-- A package as it is written: lines by name for each kind, and conversations by name. -/
structure PackageSource where
  conditions : Table String String
  events : Table String String
  objectives : Table String String
  vars : Table String String
  items : Table String String
  conversations : Table String ConversationSource

namespace PackageSource

/-- The package that declares nothing. -/
def empty : PackageSource := ⟨∅, ∅, ∅, ∅, ∅, ∅⟩

instance : Inhabited PackageSource := ⟨empty⟩

/-- The lines of a kind; conversations have none. -/
def lines (p : PackageSource) : Kind → Table String String
  | .condition => p.conditions
  | .event => p.events
  | .objective => p.objectives
  | .var => p.vars
  | .item => p.items
  | .conversation => ∅

/-- The names that a package declares for a kind. -/
def keys (p : PackageSource) (k : Kind) : List String :=
  match k with
  | .conversation => p.conversations.keys
  | k => (p.lines k).keys

/-- The names that a package declares for a kind, in ascending order. -/
def names (p : PackageSource) (k : Kind) : List String := Text.sorted (p.keys k)

/-- Whether a package declares a name for a kind. -/
def declares (p : PackageSource) (k : Kind) (name : String) : Bool :=
  match k with
  | .conversation => p.conversations.contains name
  | k => (p.lines k).contains name

/-- Everything that a package declares. -/
def declarations (p : PackageSource) : List (Kind × String) :=
  Kind.all.flatMap fun k => (p.keys k).map (k, ·)

/-- How many definitions a package declares. -/
def size (p : PackageSource) : Nat :=
  p.conditions.size + p.events.size + p.objectives.size + p.vars.size + p.items.size +
    p.conversations.size

/-- The entries of one table over those of another. -/
def overlay {ν : Type} (later earlier : Table String ν) : Table String ν :=
  later.entries.foldl (fun t e => t.insert e.1 e.2) earlier

/-- A package with a later one merged into it. -/
def merge (p later : PackageSource) : PackageSource where
  conditions := overlay later.conditions p.conditions
  events := overlay later.events p.events
  objectives := overlay later.objectives p.objectives
  vars := overlay later.vars p.vars
  items := overlay later.items p.items
  conversations := overlay later.conversations p.conversations

/-- What a later package declares that this one declares too. -/
def clashes (p later : PackageSource) : List (Kind × String) :=
  later.declarations.filter fun d => p.declares d.1 d.2

end PackageSource

/-! ### All packages -/

/-- Packages by name. -/
structure Sources where
  packages : Table String PackageSource

namespace Sources

/-- No packages. -/
def empty : Sources := ⟨∅⟩

instance : Inhabited Sources := ⟨empty⟩

/-- Add a package, or merge it into the one of its name; also what was declared twice. -/
def insert (s : Sources) (name : String) (p : PackageSource) : List (Kind × String) × Sources :=
  match s.packages.find? name with
  | some earlier => (earlier.clashes p, ⟨s.packages.insert name (earlier.merge p)⟩)
  | none => ([], ⟨s.packages.insert name p⟩)

/-- The names of the packages, in ascending order. -/
def names (s : Sources) : List String := Text.sorted s.packages.keys

/-- How many packages there are. -/
def size (s : Sources) : Nat := s.packages.size

/-- The line of a definition. -/
def line? (s : Sources) (k : Kind) (id : ObjectId) : Option String := do
  let p ← s.packages.find? id.package
  (p.lines k).find? id.name

/-- The conversation with an identifier. -/
def conversation? (s : Sources) (id : ObjectId) : Option ConversationSource := do
  let p ← s.packages.find? id.package
  p.conversations.find? id.name

/-- Whether a definition is declared. -/
def declares (s : Sources) (k : Kind) (id : ObjectId) : Bool :=
  match s.packages.find? id.package with
  | some p => p.declares k id.name
  | none => false

/-- Every declared definition. -/
def declared (s : Sources) : List (Kind × ObjectId) :=
  s.packages.entries.flatMap fun e => e.2.declarations.map fun d => (d.1, ⟨e.1, d.2⟩)

/-- Check that a definition of a kind is declared.  The reason tells an unknown package from a name
that belongs to another kind, the first in the order of kinds, and from an unknown name. -/
def check (s : Sources) (k : Kind) (id : ObjectId) : Except NotFound Unit :=
  match s.packages.find? id.package with
  | none => .error ⟨id, k, .unknownPackage⟩
  | some p =>
    if p.declares k id.name then .ok ()
    else
      match Kind.all.find? fun other => other ≠ k ∧ p.declares other id.name with
      | some other => .error ⟨id, k, .wrongKind other⟩
      | none => .error ⟨id, k, .unknownName⟩

/-- The declared definition that a name written in a package means. -/
def locate (s : Sources) (raw : String) (k : Kind) (current : String) : Except NotFound ObjectId :=
  let id := ObjectId.qualify raw current
  (s.check k id).map fun _ => id

/-! ### Declared definitions -/

theorem mem_declared_iff {s : Sources} {k : Kind} {id : ObjectId} : (k, id) ∈ s.declared ↔
    ∃ p, s.packages.find? id.package = some p ∧ id.name ∈ p.keys k := by
  refine ⟨fun h => ?_, fun ⟨p, hp, hk⟩ => ?_⟩
  · obtain ⟨⟨package, p⟩, hp, hmem⟩ := List.mem_flatMap.1 h
    obtain ⟨⟨k', name⟩, hdeclaration, heq⟩ := List.mem_map.1 hmem
    cases heq
    obtain ⟨k'', -, hkey⟩ := List.mem_flatMap.1 hdeclaration
    obtain ⟨name', hname, heq⟩ := List.mem_map.1 hkey
    cases heq
    exact ⟨p, Table.find?_of_mem_entries hp, hname⟩
  · refine List.mem_flatMap.2 ⟨(id.package, p), Table.mem_entries_of_find? hp, ?_⟩
    refine List.mem_map.2 ⟨(k, id.name), ?_, rfl⟩
    exact List.mem_flatMap.2 ⟨k, Kind.mem_all k, List.mem_map.2 ⟨id.name, hk, rfl⟩⟩

theorem mem_declared_of_line? {s : Sources} {k : Kind} {id : ObjectId} {l : String}
    (h : s.line? k id = some l) : (k, id) ∈ s.declared := by
  obtain ⟨p, hp, hl⟩ := Option.bind_eq_some_iff.1 h
  refine mem_declared_iff.2 ⟨p, hp, ?_⟩
  cases k with
  | conversation => simp [PackageSource.lines] at hl
  | _ => exact Table.mem_keys_of_find? hl

theorem mem_declared_of_conversation? {s : Sources} {id : ObjectId} {c : ConversationSource}
    (h : s.conversation? id = some c) : (.conversation, id) ∈ s.declared := by
  obtain ⟨p, hp, hc⟩ := Option.bind_eq_some_iff.1 h
  exact mem_declared_iff.2 ⟨p, hp, Table.mem_keys_of_find? hc⟩

end Sources

end Questbook
