/-
Questbook/Proofs/Package/Compile.lean

What compiling comes to.

A declared definition is built if it is grounded and broken otherwise.  Being grounded says nothing
of an order, so that neither the order of the visits nor the order in which options are kept can be
seen in what is built, and what a definition cannot reach through references cannot touch it.
-/
import Questbook.Proofs.Package.Options
import Questbook.Proofs.Package.Search

namespace Questbook

variable {registry : Registry} {sources sources' : Sources} {k : Kind} {id : ObjectId}

/-! ### What is declared -/

theorem Sources.declares_iff_mem_declared {s : Sources} :
    s.declares k id = true ↔ (k, id) ∈ s.declared := by
  rw [Sources.mem_declared_iff]
  unfold declares
  cases s.packages.find? id.package with
  | none => simp
  | some p => cases k <;> simp [PackageSource.declares, PackageSource.keys,
      Table.contains_iff_mem_keys]

/-! ### What is built and what is broken -/

theorem compile_find? {d : k.Def} : (Packages.compile registry sources).built.find? k id = some d ↔
    d ∈ grounded registry sources k id :=
  buildAlong_find? (declared_subset_schedule sources)

theorem compile_isBroken : (Packages.compile registry sources).isBroken k id = true ↔
    sources.declares k id = true ∧ ∀ d, d ∉ grounded registry sources k id := by
  rw [Sources.declares_iff_mem_declared,
    ← mem_buildAlong_broken (declared_subset_schedule sources)]
  exact List.contains_iff_mem

/-- What compiling makes of a definition is told by what is grounded there. -/
theorem compile_eq_of_grounded_eq
    (hdeclares : sources.declares k id = sources'.declares k id)
    (h : grounded registry sources k id = grounded registry sources' k id) :
    (Packages.compile registry sources).built.find? k id =
      (Packages.compile registry sources').built.find? k id ∧
    (Packages.compile registry sources).isBroken k id =
      (Packages.compile registry sources').isBroken k id := by
  refine ⟨Option.ext fun d => ?_, Bool.eq_iff_iff.2 ?_⟩
  · rw [compile_find?, compile_find?, h]
  · rw [compile_isBroken, compile_isBroken, h, hdeclares]

/-- Whether a definition is built is told by whether something is grounded there. -/
theorem compile_eq_of_exists_grounded_iff
    (hdeclares : sources.declares k id = sources'.declares k id)
    (h : (∃ d, d ∈ grounded registry sources k id) ↔ ∃ d, d ∈ grounded registry sources' k id) :
    ((Packages.compile registry sources).built.find? k id).isSome =
      ((Packages.compile registry sources').built.find? k id).isSome ∧
    (Packages.compile registry sources).isBroken k id =
      (Packages.compile registry sources').isBroken k id := by
  refine ⟨Bool.eq_iff_iff.2 ?_, Bool.eq_iff_iff.2 ?_⟩
  · simp only [Option.isSome_iff_exists, compile_find?]
    exact h
  · rw [compile_isBroken, compile_isBroken, hdeclares, ← not_exists, ← not_exists, h]

/-! ### Diagnostics -/

section

variable {I : Workshop → Prop} {package : String} {builder : Builder} {w : Workshop}

theorem Reference.resolve_keeps (hbuilder : ∀ k id w, I w → I (builder k id w).2) (r : Reference)
    (hw : I w) : I (r.resolve sources package builder w).2 := by
  rcases r.lead_or_objective with ⟨l, hlead⟩ | ⟨raw, rfl⟩
  · rw [Reference.resolve_of_lead hlead]
    cases sources.locate l.name l.kind package with
    | error e => exact hw
    | ok id => exact hbuilder _ _ w hw
  · exact hw

theorem Plan.run_keeps {σ α : Type} (hbuilder : ∀ k id w, I w → I (builder k id w).2)
    (plan : Plan σ α) (hw : I w) : I (plan.run sources package builder w).2.2 := by
  induction plan generalizing w with
  | done a s => exact hw
  | fail e s => exact hw
  | refer r s next ih =>
    have hresolve : I (r.resolve sources package builder w).2 :=
      Reference.resolve_keeps hbuilder r hw
    rcases hresult : r.resolve sources package builder w with ⟨err | t, w'⟩
    · rw [hresult] at hresolve
      rw [Plan.run, hresult]
      exact hresolve
    · rw [hresult] at hresolve
      rw [Plan.run, hresult]
      exact ih t hresolve

/-- Building keeps what is kept where a definition is kept or its failure recorded. -/
theorem build_keeps (hkeep : ∀ w k id d, I w → I (w.keep k id d))
    (hrecord : ∀ w k id line e, I w → I (w.record k id line e)) {stack : List (Kind × ObjectId)}
    (hw : I w) : I (build registry sources stack k id w).2 := by
  fun_induction build registry sources stack k id w with
  | case1 | case2 | case3 | case4 => exact hw
  | case5 stack k id w hfind hbroken hstack line plan hblueprint deeper d s w' hrun ih =>
    have hplan : I (plan.run sources id.package deeper w).2.2 :=
      Plan.run_keeps (fun k id w hw => ih k id w hw) plan hw
    rw [hrun] at hplan
    exact hkeep w' k id d hplan
  | case6 stack k id w hfind hbroken hstack line plan hblueprint deeper e s w' hrun ih =>
    have hplan : I (plan.run sources id.package deeper w).2.2 :=
      Plan.run_keeps (fun k id w hw => ih k id w hw) plan hw
    rw [hrun] at hplan
    exact hrecord w' k id line e hplan

end

/-- A workshop has a diagnostic for each broken definition. -/
theorem compile_diagnostics (registry : Registry) (sources : Sources) :
    (Packages.compile registry sources).diagnostics.map (fun d => (d.kind, d.id)) =
      (Packages.compile registry sources).broken.reverse := by
  let I : Workshop → Prop := fun w => w.diagnostics.map (fun d => (d.kind, d.id)) = w.broken.reverse
  have hbuild : ∀ k id w, I w → I (build registry sources [] k id w).2 := fun k id w =>
    build_keeps (fun _ _ _ _ hw => hw) fun w k id line e hw => by
      simp only [I, Workshop.record, List.map_append, List.map_cons, List.map_nil,
        List.reverse_cons]
      rw [hw]
  have hall : ∀ order w, I w → I (buildAlong registry sources order w) := by
    intro order
    induction order with
    | nil => exact fun _ hw => hw
    | cons d rest ih => exact fun w hw => ih _ (hbuild d.1 d.2 w hw)
  exact hall _ _ rfl

/-- **Compiling builds the grounded definitions, and no others.**

* A definition is built if and only if it is in the least fixed point of `grow`.
* It is broken if and only if it is declared and nothing is grounded there.
* The order in which the declared definitions are visited cannot be seen in either.
* Nor can the order of the options of conversations.
* What is written differently for some definitions is seen by those only that reach one of them
  through references; so a definition that fails breaks no others.
-/
theorem compile_builds_grounded (registry : Registry) (sources : Sources) :
    (∀ k id d, (Packages.compile registry sources).built.find? k id = some d ↔
      d ∈ grounded registry sources k id) ∧
    (∀ k id, (Packages.compile registry sources).isBroken k id = true ↔
      sources.declares k id = true ∧ ∀ d, d ∉ grounded registry sources k id) ∧
    (∀ order, sources.declared ⊆ order → ∀ k id,
      (buildAlong registry sources order Workshop.empty).built.find? k id =
        (Packages.compile registry sources).built.find? k id ∧
      ((k, id) ∈ (buildAlong registry sources order Workshop.empty).broken ↔
        (Packages.compile registry sources).isBroken k id = true)) ∧
    (∀ sources', sources.Alike sources' → ∀ k id,
      ((Packages.compile registry sources).built.find? k id).isSome =
        ((Packages.compile registry sources').built.find? k id).isSome ∧
      (Packages.compile registry sources).isBroken k id =
        (Packages.compile registry sources').isBroken k id) ∧
    (∀ F sources', sources.AgreeOff F sources' → ∀ k id, Clear registry sources F (k, id) →
      (Packages.compile registry sources).built.find? k id =
        (Packages.compile registry sources').built.find? k id ∧
      (Packages.compile registry sources).isBroken k id =
        (Packages.compile registry sources').isBroken k id) := by
  refine ⟨fun k id d => compile_find?, fun k id => compile_isBroken, ?_, ?_, ?_⟩
  · intro order hcover k id
    refine ⟨Option.ext fun d => ?_, ?_⟩
    · rw [buildAlong_find? hcover, compile_find?]
    · rw [mem_buildAlong_broken hcover, compile_isBroken, Sources.declares_iff_mem_declared]
  · intro sources' h k id
    exact compile_eq_of_exists_grounded_iff (h.declares k id) h.exists_grounded_iff
  · intro F sources' h k id hclear
    exact compile_eq_of_grounded_eq (h.declares k id) (grounded_eq_of_agreeOff h hclear)

/-! ### Packages to try it on -/

/-- A conversation that begins with one of its lines. -/
def greeting (lines : List String) : ConversationSource where
  quester := "Wolf"
  first := ["hello"]
  screen := none
  finalEvents := []
  npcOptions := .ofList (lines.map fun name => (name, ⟨"Awoo.", [], [], []⟩))
  playerOptions := ∅

/-- A calm wolf, a pack that follows its alpha, and a conversation. -/
def woods (alpha : String) (lines : List String) : Sources where
  packages := (∅ : Table String PackageSource).insert "woods" { PackageSource.empty with
    conditions := .ofList [("calm", "sneak"), ("alpha", alpha), ("pack", "like alpha")]
    conversations := (∅ : Table String ConversationSource).insert "greeting" (greeting lines) }

/-- Woods where the alpha follows the pack. -/
abbrev wild : Sources := woods "like pack" ["hello", "bye"]

/-- A condition that stands alone, and one that is like another. -/
def manners : Registry where
  conditions := .ofList [("sneak", pure .sneaking), ("like", do
    let raw ← Draft.read Line.next
    (fun c => .compound false [c]) <$> Draft.condition raw)]
  events := ∅
  goals := ∅
  vars := ∅
  screens := ∅

section

variable {alpha alpha' : String} {lines lines' : List String} {k : Kind} {id : ObjectId}

theorem woods_line? : (woods alpha lines).line? k id =
    if "woods" = id.package ∧ k = .condition then
      if "calm" = id.name then some "sneak"
      else if "alpha" = id.name then some alpha
      else if "pack" = id.name then some "like alpha"
      else none
    else none := by
  unfold Sources.line? woods
  by_cases hpackage : "woods" = id.package
  · cases k <;>
      simp [hpackage, PackageSource.lines, PackageSource.empty, Table.ofList, Table.find?_insert]
    grind
  · simp [hpackage, Table.find?_insert]

theorem woods_conversation? : (woods alpha lines).conversation? id =
    if "woods" = id.package ∧ "greeting" = id.name then some (greeting lines) else none := by
  unfold Sources.conversation? woods
  by_cases hpackage : "woods" = id.package
  · simp [hpackage, Table.find?_insert]
  · simp [hpackage, Table.find?_insert]

theorem woods_declares :
    (woods alpha lines).declares k id = (woods alpha' lines').declares k id := by
  unfold Sources.declares woods
  by_cases hpackage : "woods" = id.package
  · cases k <;>
      simp [hpackage, PackageSource.declares, PackageSource.lines, PackageSource.empty,
        Table.ofList, Table.contains, Table.find?_insert]
    all_goals grind
  · simp [hpackage, Table.find?_insert]

theorem woods_alike : (woods alpha ["hello", "bye"]).Alike (woods alpha ["bye", "hello"]) where
  declares _ _ := woods_declares
  line k id := by rw [woods_line?, woods_line?]
  conversation id := by
    have hgreeting : (greeting ["hello", "bye"]).Alike (greeting ["bye", "hello"]) := by
      refine ⟨rfl, rfl, rfl, rfl, fun name => ?_, fun _ => rfl⟩
      simp only [greeting, Table.ofList, List.map_cons, List.map_nil, List.foldl_cons,
        List.foldl_nil, Table.find?_insert]
      grind
    rw [woods_conversation?, woods_conversation?]
    by_cases hid : "woods" = id.package ∧ "greeting" = id.name
    · rw [if_pos hid, if_pos hid]
      exact .some hgreeting
    · rw [if_neg hid, if_neg hid]
      exact .none

theorem woods_agreeOff : (woods alpha lines).AgreeOff {(.condition, ⟨"woods", "alpha"⟩)}
    (woods alpha' lines) where
  declares _ _ := woods_declares
  line k id hid := by
    rw [woods_line?, woods_line?]
    by_cases hk : "woods" = id.package ∧ k = .condition
    · have hname : "alpha" ≠ id.name := fun hname => hid (by rw [hk.2, hk.1, hname]; rfl)
      rw [if_neg hname, if_neg hname]
    · rw [if_neg hk, if_neg hk]
  conversation id _ := by rw [woods_conversation?, woods_conversation?]

end

/-- The calm wolf is built.  It is so whatever the order, and stays so when the alpha no longer
waits for the pack, which is what breaks the two of them before. -/
theorem compile_builds_grounded_of_cycle :
    ((Packages.compile manners wild).built.find? .condition ⟨"woods", "calm"⟩ =
      some Condition.sneaking) ∧
    ((Packages.compile manners wild).isBroken .condition ⟨"woods", "alpha"⟩ = true) ∧
    ((buildAlong manners wild wild.declared.reverse Workshop.empty).built.find? .condition
      ⟨"woods", "calm"⟩ = some Condition.sneaking) ∧
    ((Packages.compile manners (woods "like pack" ["bye", "hello"])).isBroken .condition
      ⟨"woods", "alpha"⟩ = true) ∧
    ((Packages.compile manners (woods "sneak" ["hello", "bye"])).built.find? .condition
      ⟨"woods", "calm"⟩ = some Condition.sneaking) := by
  obtain ⟨hbuilt, hbroken, horder, halike, hagree⟩ := compile_builds_grounded manners wild
  have hcalm : blueprint? manners wild .condition ⟨"woods", "calm"⟩ =
      some (some "sneak", .done Condition.sneaking ()) := rfl
  have hclear : Clear manners wild {(.condition, ⟨"woods", "alpha"⟩)}
      (.condition, ⟨"woods", "calm"⟩) := by
    rintro y rfl hreach
    rcases Relation.ReflTransGen.cases_head hreach with heq | ⟨z, hrefers, -⟩
    · simp at heq
    · obtain ⟨line, plan, hblueprint, hasks⟩ := hrefers
      rw [hcalm] at hblueprint
      cases hblueprint
      exact hasks
  have hcycle : Relation.TransGen (Refers manners wild) (.condition, ⟨"woods", "alpha"⟩)
      (.condition, ⟨"woods", "alpha"⟩) := by
    refine .tail (b := (.condition, ⟨"woods", "pack"⟩)) (.single ?_) ?_
    · exact ⟨_, _, rfl, .inl ⟨_, rfl, rfl, rfl⟩⟩
    · exact ⟨_, _, rfl, .inl ⟨_, rfl, rfl, rfl⟩⟩
  have hfind : (Packages.compile manners wild).built.find? .condition ⟨"woods", "calm"⟩ =
      some Condition.sneaking :=
    (hbuilt _ _ _).2 (mem_grounded_iff.2 ⟨_, _, hcalm, rfl⟩)
  have halpha : (Packages.compile manners wild).isBroken .condition ⟨"woods", "alpha"⟩ = true :=
    (hbroken _ _).2 ⟨rfl, not_grounded_of_cycle .refl hcycle⟩
  refine ⟨hfind, halpha, ?_, ?_, ?_⟩
  · rw [(horder _ (List.subset_reverse.2 (List.Subset.refl _)) _ _).1, hfind]
  · rw [← (halike _ woods_alike _ _).2, halpha]
  · rw [← (hagree _ _ woods_agreeOff _ _ hclear).1, hfind]

end Questbook
