/-
Questbook/Proofs/Package/Evaluate.lean

Compiling by computation.

The search for definitions ends because fewer and fewer of them are left, and a search that ends for
such a reason cannot be run by the kernel.  Counted down from a number instead, it can.  Any number
above that of the declared definitions is enough, so that what is compiled of given packages can be
computed within proofs.

Main result: `compileWithin_eq`.
-/
import Questbook.Package.Compiled

namespace Questbook

variable (registry : Registry) (sources : Sources)

/-- Build a definition with at most so many definitions under construction. -/
def buildWithin : Nat → List (Kind × ObjectId) → Builder
  | 0, _, k, id, w => (.error ⟨id, k, .broken⟩, w)
  | depth + 1, stack, k, id, w =>
    match w.built.find? k id with
    | some d => (.ok d, w)
    | none =>
      if w.broken.contains (k, id) then (.error ⟨id, k, .broken⟩, w)
      else if stack.contains (k, id) then (.error ⟨id, k, .cycle (cyclePath stack k id)⟩, w)
      else
        match blueprint? registry sources k id with
        | none => (.error ⟨id, k, .unknownName⟩, w)
        | some (line, plan) =>
          match plan.run sources id.package (buildWithin depth ((k, id) :: stack)) w with
          | (.ok d, _, w) => (.ok d, w.keep k id d)
          | (.error e, _, w) => (.error (e.seenBy k id), w.record k id line e)

/-- Every declared definition in the order in which it is written. -/
def Sources.written : List (Kind × ObjectId) :=
  sources.packages.keys.flatMap fun package =>
    match sources.packages.find? package with
    | none => []
    | some p =>
      [Kind.var, .item, .condition, .event, .objective, .conversation].flatMap fun k =>
        (p.keys k).map fun name => (k, ⟨package, name⟩)

/-- Packages and definitions are written in ascending order of their names. -/
def Sources.Ascending : Prop :=
  sources.packages.keys.Pairwise (fun a b => Text.atMost a b) ∧
    ∀ e ∈ sources.packages.entries, ∀ k ∈ Kind.all,
      (PackageSource.keys e.2 k).Pairwise (fun a b => Text.atMost a b)

instance : Decidable sources.Ascending := inferInstanceAs (Decidable (_ ∧ _))

/-- Compile packages in the order in which they are written, with at most so many definitions under
construction. -/
def compileWithin (depth : Nat) : Packages :=
  let w := sources.written.foldl
    (fun w d => (buildWithin registry sources depth [] d.1 d.2 w).2) Workshop.empty
  ⟨sources, w.built, w.broken, w.diagnostics⟩

variable {registry sources}

theorem buildWithin_eq_build {depth : Nat} {stack : List (Kind × ObjectId)} {k : Kind}
    {id : ObjectId} {w : Workshop} (h : room sources stack < depth) :
    buildWithin registry sources depth stack k id w = build registry sources stack k id w := by
  induction depth generalizing stack k id w with
  | zero => omega
  | succ depth ih =>
    have hdeeper : ∀ b, blueprint? registry sources k id = some b → (k, id) ∉ stack →
        buildWithin registry sources depth ((k, id) :: stack) =
          fun k' id' w' => build registry sources ((k, id) :: stack) k' id' w' := by
      intro b hblueprint hstack
      have hless := room_cons_lt (mem_declared_of_blueprint? hblueprint) hstack
      funext k' id' w'
      exact ih (by omega)
    fun_cases build registry sources stack k id w with
    | case1 d hfind => simp only [buildWithin, hfind]
    | case2 hfind hbroken => simp only [buildWithin, hfind, hbroken, if_true]
    | case3 hfind hbroken hstack =>
      simp only [buildWithin, hfind, hbroken, List.contains_iff_mem, hstack, if_true, if_false,
        Bool.false_eq_true]
    | case4 hfind hbroken hstack hblueprint =>
      simp only [buildWithin, hfind, hbroken, List.contains_iff_mem, hstack, hblueprint, if_false,
        Bool.false_eq_true]
    | case5 hfind hbroken hstack line plan hblueprint deeper d s w' hrun =>
      simp only [buildWithin, hfind, hbroken, List.contains_iff_mem, hstack, hblueprint,
        hdeeper _ hblueprint hstack, if_false, Bool.false_eq_true]
      rw [hrun]
    | case6 hfind hbroken hstack line plan hblueprint deeper e s w' hrun =>
      simp only [buildWithin, hfind, hbroken, List.contains_iff_mem, hstack, hblueprint,
        hdeeper _ hblueprint hstack, if_false, Bool.false_eq_true]
      rw [hrun]

/-- What is written in ascending order is built in the order in which it is written. -/
theorem schedule_eq_written (h : sources.Ascending) : schedule sources = sources.written := by
  have hpackages : sources.names = sources.packages.keys := List.mergeSort_of_pairwise h.1
  unfold schedule Sources.written
  rw [hpackages]
  congr 1
  funext package
  cases hfind : sources.packages.find? package with
  | none => rfl
  | some p =>
    dsimp only
    congr 1
    funext k
    have hnames : p.names k = p.keys k :=
      List.mergeSort_of_pairwise (h.2 _ (Table.mem_entries_of_find? hfind) k (Kind.mem_all k))
    rw [hnames]

/-- Compiling with room for all definitions is compiling. -/
theorem compileWithin_eq {depth : Nat} (hroom : room sources [] < depth)
    (hascending : sources.Ascending) :
    compileWithin registry sources depth = Packages.compile registry sources := by
  have hbuild : (fun (w : Workshop) (d : Kind × ObjectId) =>
      (buildWithin registry sources depth [] d.1 d.2 w).2) =
      fun w d => (build registry sources [] d.1 d.2 w).2 := by
    funext w d
    rw [buildWithin_eq_build hroom]
  unfold compileWithin
  rw [hbuild, ← schedule_eq_written hascending]
  rfl

end Questbook
