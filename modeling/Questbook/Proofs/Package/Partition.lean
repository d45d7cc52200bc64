/-
Questbook/Proofs/Package/Partition.lean

What is declared is built or broken, and never both.

A definition that is condemned was on the stack until then, so that the search underneath it could
not condemn it as well: meeting it there is a cycle, and a cycle condemns those that are left, each
when it is left.  So nothing is condemned twice (`build_apart`), and as each definition that is
condemned comes with its diagnostic, no diagnostic comes twice.

With that the finished packages have no third state, and a name looked up in them leads to what
loading made of the definition, with the errors of `Sources.locate` before anything else.
-/
import Questbook.Engine.Command
import Questbook.Proofs.Package.Compile

namespace Questbook

variable {registry : Registry} {sources : Sources} {k : Kind} {id : ObjectId}

/-! ### Condemned once -/

/-- Nothing was condemned twice, and nothing on the stack was condemned. -/
structure Workshop.Apart (stack : List (Kind × ObjectId)) (w : Workshop) : Prop where
  once : w.broken.Nodup
  spared : ∀ x ∈ stack, x ∉ w.broken

theorem Workshop.Apart.push {stack : List (Kind × ObjectId)} {w : Workshop} (h : w.Apart stack)
    (hnot : (k, id) ∉ w.broken) : w.Apart ((k, id) :: stack) := by
  refine ⟨h.once, fun x hx => ?_⟩
  rcases List.mem_cons.1 hx with rfl | hx
  · exact hnot
  · exact h.spared x hx

/-- What is taken from the stack may be condemned. -/
theorem Workshop.Apart.record {stack : List (Kind × ObjectId)} {w : Workshop}
    (h : w.Apart ((k, id) :: stack)) (hstack : (k, id) ∉ stack) (line : Option String)
    (e : BuildError) : (w.record k id line e).Apart stack := by
  refine ⟨List.nodup_cons.2 ⟨h.spared _ List.mem_cons_self, h.once⟩, fun x hx hmem => ?_⟩
  rcases List.mem_cons.1 hmem with rfl | hmem
  · exact hstack hx
  · exact h.spared x (List.mem_cons_of_mem _ hx) hmem

theorem build_apart {stack : List (Kind × ObjectId)} {w : Workshop} (hw : w.Apart stack) :
    (build registry sources stack k id w).2.Apart stack := by
  fun_induction build registry sources stack k id w with
  | case1 | case2 | case3 | case4 => exact hw
  | case5 stack k id w hfind hbroken hstack line plan hblueprint deeper d s w' hrun ih =>
    have hnot : (k, id) ∉ w.broken := by simpa using hbroken
    have hplan : (plan.run sources id.package deeper w).2.2.Apart ((k, id) :: stack) :=
      Plan.run_keeps (fun k' id' w' => ih k' id' w') plan (hw.push hnot)
    rw [hrun] at hplan
    exact ⟨hplan.once, fun x hx => hplan.spared x (List.mem_cons_of_mem _ hx)⟩
  | case6 stack k id w hfind hbroken hstack line plan hblueprint deeper e s w' hrun ih =>
    have hnot : (k, id) ∉ w.broken := by simpa using hbroken
    have hplan : (plan.run sources id.package deeper w).2.2.Apart ((k, id) :: stack) :=
      Plan.run_keeps (fun k' id' w' => ih k' id' w') plan (hw.push hnot)
    rw [hrun] at hplan
    exact hplan.record hstack line e

/-- In whatever order definitions are visited, none is condemned twice. -/
theorem buildAlong_broken_nodup (order : List (Kind × ObjectId)) :
    (buildAlong registry sources order Workshop.empty).broken.Nodup := by
  have hall : ∀ w : Workshop, w.Apart [] → (buildAlong registry sources order w).Apart [] := by
    induction order with
    | nil => exact fun w hw => hw
    | cons x rest ih => exact fun w hw => ih _ (build_apart hw)
  exact (hall Workshop.empty ⟨List.nodup_nil, nofun⟩).once

/-! ### No third state -/

theorem compile_isSome_iff : ((Packages.compile registry sources).built.find? k id).isSome = true ↔
    ∃ d, d ∈ grounded registry sources k id := by
  simp only [Option.isSome_iff_exists, compile_find?]

/-- What is declared is built or broken, and not both; what is not declared is neither. -/
theorem compile_isSome_iff_of_isBroken :
    ((Packages.compile registry sources).built.find? k id).isSome = true ↔
      sources.declares k id = true ∧ (Packages.compile registry sources).isBroken k id = false := by
  rw [compile_isSome_iff, ← Bool.not_eq_true, compile_isBroken]
  constructor
  · rintro ⟨d, hd⟩
    exact ⟨Sources.declares_iff_mem_declared.2 (mem_declared_of_grounded hd),
      fun hbroken => hbroken.2 d hd⟩
  · rintro ⟨hdeclares, hnot⟩
    by_contra hnone
    exact hnot ⟨hdeclares, fun d hd => hnone ⟨d, hd⟩⟩

/-- A broken definition has one diagnostic, and no other definition has any. -/
theorem compile_count_diagnostics (k : Kind) (id : ObjectId) :
    (Packages.compile registry sources).diagnostics.countP (fun d => d.kind = k ∧ d.id = id) =
      if (Packages.compile registry sources).isBroken k id then 1 else 0 := by
  -- Diagnostics name the broken definitions one by one, and none of these is named twice.
  have hcount : (Packages.compile registry sources).diagnostics.countP
      (fun d => d.kind = k ∧ d.id = id) =
      ((Packages.compile registry sources).diagnostics.map fun d => (d.kind, d.id)).count
        (k, id) := by
    rw [List.count, List.countP_map]
    refine List.countP_congr fun d _ => ?_
    simp [Prod.ext_iff]
  have hnodup : (Packages.compile registry sources).broken.Nodup :=
    buildAlong_broken_nodup (schedule sources)
  rw [hcount, compile_diagnostics, List.count_reverse, hnodup.count]
  simp [Packages.isBroken]

/-! ### Looking a name up -/

/-- What is written where a definition is meant: whether it is negated, as only a condition can be,
and the name that is left. -/
def Kind.read (k : Kind) (raw : String) : Bool × String :=
  if k = .condition then stripNegation raw else (false, raw)

/-- Why a name does not lead to a declaration. -/
theorem Sources.check_error {e : NotFound} (h : sources.check k id = .error e) :
    e.id = id ∧ e.kind = k ∧
      (e.reason = .unknownPackage ∨ e.reason = .unknownName ∨
        ∃ other, e.reason = .wrongKind other) := by
  unfold check at h
  cases hpackage : sources.packages.find? id.package with
  | none =>
    rw [hpackage] at h
    cases h
    exact ⟨rfl, rfl, .inl rfl⟩
  | some p =>
    simp only [hpackage] at h
    split at h
    · cases h
    · split at h
      · cases h
        exact ⟨rfl, rfl, .inr (.inr ⟨_, rfl⟩)⟩
      · cases h
        exact ⟨rfl, rfl, .inr (.inl rfl)⟩

theorem Sources.locate_error {raw current : String} {e : NotFound}
    (h : sources.locate raw k current = .error e) :
    sources.check k (ObjectId.qualify raw current) = .error e := by
  cases hcheck : sources.check k (ObjectId.qualify raw current) with
  | error e' =>
    simp only [locate, hcheck, Except.map, Except.error.injEq] at h
    rw [h]
  | ok u => simp [locate, hcheck, Except.map] at h

namespace Packages

variable {s : Packages} {raw current : String}

/-- The definition that a name means, in terms of what is read of the name. -/
theorem resolve_eq_map : s.resolve raw k current =
    (s.get k (ObjectId.qualify (k.read raw).2 current)).map fun d =>
      ⟨ObjectId.qualify (k.read raw).2 current, (k.read raw).1, d⟩ := rfl

theorem resolve_of_locate_error {e : NotFound}
    (h : s.sources.locate (k.read raw).2 k current = .error e) :
    s.resolve raw k current = .error e := by
  rw [resolve_eq_map, get, Sources.locate_error h]
  rfl

theorem resolve_of_find? {d : k.Def}
    (h : s.sources.locate (k.read raw).2 k current = .ok id) (hfind : s.built.find? k id = some d) :
    s.resolve raw k current = .ok ⟨id, (k.read raw).1, d⟩ := by
  obtain ⟨rfl, hdeclares⟩ := Sources.locate_eq_ok_iff.1 h
  rw [resolve_eq_map, get, Sources.check_eq_ok_iff.2 hdeclares, hfind]
  rfl

theorem resolve_of_find?_eq_none
    (h : s.sources.locate (k.read raw).2 k current = .ok id) (hfind : s.built.find? k id = none) :
    s.resolve raw k current = .error ⟨id, k, .broken⟩ := by
  obtain ⟨rfl, hdeclares⟩ := Sources.locate_eq_ok_iff.1 h
  rw [resolve_eq_map, get, Sources.check_eq_ok_iff.2 hdeclares, hfind]
  rfl

end Packages

section

variable {raw current : String}

theorem compile_resolve_eq_ok_iff {d : Resolved k} :
    (Packages.compile registry sources).resolve raw k current = .ok d ↔
      sources.locate (k.read raw).2 k current = .ok d.id ∧ d.negated = (k.read raw).1 ∧
      (Packages.compile registry sources).built.find? k d.id = some d.target := by
  constructor
  · intro h
    cases hlocate : sources.locate (k.read raw).2 k current with
    | error e =>
      rw [Packages.resolve_of_locate_error hlocate] at h
      cases h
    | ok id =>
      cases hfind : (Packages.compile registry sources).built.find? k id with
      | none =>
        rw [Packages.resolve_of_find?_eq_none hlocate hfind] at h
        cases h
      | some target =>
        rw [Packages.resolve_of_find? hlocate hfind] at h
        cases h
        exact ⟨rfl, rfl, hfind⟩
  · rintro ⟨hlocate, hnegated, hfind⟩
    rw [Packages.resolve_of_find? hlocate hfind, ← hnegated]

/-- A name that is looked up in finished packages leads somewhere if it can be located and what is
there is not broken. -/
theorem compile_resolves_iff :
    (∃ d, (Packages.compile registry sources).resolve raw k current = .ok d) ↔
      ∃ id, sources.locate (k.read raw).2 k current = .ok id ∧
        (Packages.compile registry sources).isBroken k id = false := by
  constructor
  · rintro ⟨d, hd⟩
    obtain ⟨hlocate, -, hfind⟩ := compile_resolve_eq_ok_iff.1 hd
    exact ⟨d.id, hlocate, (compile_isSome_iff_of_isBroken.1 (by rw [hfind]; rfl)).2⟩
  · rintro ⟨id, hlocate, hbroken⟩
    have hdeclares : sources.declares k id = true := (Sources.locate_eq_ok_iff.1 hlocate).2
    obtain ⟨target, hfind⟩ := Option.isSome_iff_exists.1
      (compile_isSome_iff_of_isBroken.2 ⟨hdeclares, hbroken⟩)
    exact ⟨⟨id, (k.read raw).1, target⟩, compile_resolve_eq_ok_iff.2 ⟨hlocate, rfl, hfind⟩⟩

/-- A broken definition is not built. -/
theorem compile_find?_eq_none
    (h : (Packages.compile registry sources).isBroken k id = true) :
    (Packages.compile registry sources).built.find? k id = none := by
  refine Option.not_isSome_iff_eq_none.1 fun hsome => ?_
  rw [compile_isSome_iff_of_isBroken, h] at hsome
  cases hsome.2

theorem compile_resolve_eq_error_iff {e : NotFound} :
    (Packages.compile registry sources).resolve raw k current = .error e ↔
      sources.locate (k.read raw).2 k current = .error e ∨
      ∃ id, sources.locate (k.read raw).2 k current = .ok id ∧
        (Packages.compile registry sources).isBroken k id = true ∧ e = ⟨id, k, .broken⟩ := by
  constructor
  · intro h
    cases hlocate : sources.locate (k.read raw).2 k current with
    | error e' =>
      rw [Packages.resolve_of_locate_error hlocate] at h
      cases h
      exact .inl rfl
    | ok id =>
      cases hbroken : (Packages.compile registry sources).isBroken k id with
      | true =>
        rw [Packages.resolve_of_find?_eq_none hlocate (compile_find?_eq_none hbroken)] at h
        cases h
        exact .inr ⟨id, rfl, hbroken, rfl⟩
      | false =>
        obtain ⟨d, hd⟩ := compile_resolves_iff.2 ⟨id, hlocate, hbroken⟩
        rw [hd] at h
        cases h
  · rintro (hlocate | ⟨id, hlocate, hbroken, rfl⟩)
    · exact Packages.resolve_of_locate_error hlocate
    · exact Packages.resolve_of_find?_eq_none hlocate (compile_find?_eq_none hbroken)

end

/-! ### While loading and afterwards -/

/-- A reference to a condition as it is resolved while packages are loaded. -/
def Sources.conditionWhileLoading (sources : Sources) (raw current : String) (builder : Builder)
    (w : Workshop) : Except NotFound ConditionRef :=
  ((Reference.condition raw).resolve sources current builder w).1

variable {raw current : String} {builder : Builder} {w : Workshop}

theorem Sources.conditionWhileLoading_of_error {e : NotFound}
    (h : sources.locate (Kind.condition.read raw).2 .condition current = .error e) :
    sources.conditionWhileLoading raw current builder w = .error e := by
  have hread : sources.locate (stripNegation raw).2 .condition current = .error e := h
  simp only [conditionWhileLoading, Reference.resolve, hread]
  rfl

theorem Sources.conditionWhileLoading_of_ok
    (h : sources.locate (Kind.condition.read raw).2 .condition current = .ok id) :
    sources.conditionWhileLoading raw current builder w =
      (builder .condition id w).1.map fun d => ⟨id, (Kind.condition.read raw).1, d⟩ := by
  have hread : sources.locate (stripNegation raw).2 .condition current = .ok id := h
  simp only [conditionWhileLoading, Reference.resolve, hread]
  cases (builder .condition id w).1 <;> rfl

/-- In the finished workshop, a definition that was declared is built or refused, with nothing left
to do. -/
theorem build_buildAll (hdeclares : sources.declares k id = true) :
    (build registry sources [] k id (buildAll registry sources)).1 =
      match (Packages.compile registry sources).built.find? k id with
      | some d => .ok d
      | none => .error ⟨id, k, .broken⟩ := by
  unfold build
  show (match (Packages.compile registry sources).built.find? k id with
    | some d => _
    | none => _ : Except NotFound k.Def × Workshop).1 = _
  cases hfind : (Packages.compile registry sources).built.find? k id with
  | some d => rfl
  | none =>
    have hbroken : (buildAll registry sources).broken.contains (k, id) = true := by
      by_contra hnot
      have hsome := compile_isSome_iff_of_isBroken.2 ⟨hdeclares, Bool.eq_false_iff.2 hnot⟩
      rw [hfind] at hsome
      cases hsome
    simp only [hbroken, if_true]

/-- What a reference to a condition has led to while loading, it leads to when all is loaded, and
the other way round, whatever was visited before. -/
theorem conditionWhileLoading_eq_ok_iff (order : List (Kind × ObjectId)) {c : ConditionRef} :
    sources.conditionWhileLoading raw current (build registry sources [])
      (buildAlong registry sources order Workshop.empty) = .ok c ↔
      ∃ d, (Packages.compile registry sources).resolve raw .condition current = .ok d ∧
        d.conditionRef = c := by
  have hsound := (buildAlong_verdict order (Workshop.sound_empty registry sources)).1
  cases hlocate : sources.locate (Kind.condition.read raw).2 .condition current with
  | error e =>
    rw [Sources.conditionWhileLoading_of_error hlocate, Packages.resolve_of_locate_error hlocate]
    simp
  | ok id =>
    -- With nothing under construction, what is visited is built if it is grounded, and only then.
    have hverdict := build_verdict hsound (Waits.nil .condition id)
    rw [Sources.conditionWhileLoading_of_ok hlocate]
    cases hbuild : (build registry sources [] .condition id
        (buildAlong registry sources order Workshop.empty)).1 with
    | ok d =>
      have hfind := compile_find?.2 (hverdict.ok d hbuild).1
      rw [Packages.resolve_of_find? hlocate hfind]
      simp [Except.map, Resolved.conditionRef]
    | error e =>
      -- What fails at some time while loading is not grounded, so it is not there afterwards.
      have hfind : (Packages.compile registry sources).built.find? .condition id = none :=
        Option.eq_none_iff_forall_ne_some.2 fun d hd =>
          (hverdict.error e hbuild).1 d (compile_find?.1 hd)
      rw [Packages.resolve_of_find?_eq_none hlocate hfind]
      simp [Except.map]

/-- Looking a condition up when all is loaded is what a reference to it did while loading. -/
theorem conditionWhileLoading_buildAll (raw current : String) :
    sources.conditionWhileLoading raw current (build registry sources [])
      (buildAll registry sources) =
      ((Packages.compile registry sources).resolve raw .condition current).map
        Resolved.conditionRef := by
  cases hlocate : sources.locate (Kind.condition.read raw).2 .condition current with
  | error e =>
    rw [Sources.conditionWhileLoading_of_error hlocate, Packages.resolve_of_locate_error hlocate]
    rfl
  | ok id =>
    have hdeclares : sources.declares .condition id = true :=
      (Sources.locate_eq_ok_iff.1 hlocate).2
    rw [Sources.conditionWhileLoading_of_ok hlocate, build_buildAll hdeclares]
    cases hfind : (Packages.compile registry sources).built.find? .condition id with
    | some d =>
      rw [Packages.resolve_of_find? hlocate hfind]
      rfl
    | none =>
      rw [Packages.resolve_of_find?_eq_none hlocate hfind]
      rfl

/-- **What is declared is built or broken, never both, and nothing else is either.**

* A declared definition is built if it is not broken, and broken if it is not built; what is not
  declared is neither.
* A broken definition has one diagnostic, and no other definition has any.
* A name leads to a definition if it can be located and what is there is not broken; then to what
  was built under the identifier, negated if the name of a condition says so.
* It is refused as broken if it can be located and what is there is broken, and otherwise with what
  hindered its being located: an unknown package, an unknown name or another kind.
* A reference to a condition reads the name in the same way while packages are loaded, and leads
  to the same.  When all is loaded it is also refused in the same way.
-/
theorem compile_partitions (registry : Registry) (sources : Sources) :
    (∀ k id, sources.declares k id = true →
      Xor (((Packages.compile registry sources).built.find? k id).isSome = true)
        ((Packages.compile registry sources).isBroken k id = true)) ∧
    (∀ k id, sources.declares k id = false →
      (Packages.compile registry sources).built.find? k id = none ∧
      (Packages.compile registry sources).isBroken k id = false) ∧
    (∀ k id, (Packages.compile registry sources).diagnostics.countP
        (fun d => d.kind = k ∧ d.id = id) =
      if (Packages.compile registry sources).isBroken k id then 1 else 0) ∧
    (∀ raw k current,
      ((∃ d, (Packages.compile registry sources).resolve raw k current = .ok d) ↔
        ∃ id, sources.locate (k.read raw).2 k current = .ok id ∧
          (Packages.compile registry sources).isBroken k id = false) ∧
      (∀ d, (Packages.compile registry sources).resolve raw k current = .ok d ↔
        sources.locate (k.read raw).2 k current = .ok d.id ∧ d.negated = (k.read raw).1 ∧
          (Packages.compile registry sources).built.find? k d.id = some d.target) ∧
      (∀ e, (Packages.compile registry sources).resolve raw k current = .error e ↔
        sources.locate (k.read raw).2 k current = .error e ∨
        ∃ id, sources.locate (k.read raw).2 k current = .ok id ∧
          (Packages.compile registry sources).isBroken k id = true ∧ e = ⟨id, k, .broken⟩) ∧
      (∀ e, sources.locate (k.read raw).2 k current = .error e →
        e.id = ObjectId.qualify (k.read raw).2 current ∧ e.kind = k ∧
        (e.reason = .unknownPackage ∨ e.reason = .unknownName ∨
          ∃ other, e.reason = .wrongKind other))) ∧
    (∀ raw current builder w c, sources.conditionWhileLoading raw current builder w = .ok c →
      sources.locate (Kind.condition.read raw).2 .condition current = .ok c.id ∧
      c.negated = (Kind.condition.read raw).1) ∧
    (∀ raw current order c, sources.conditionWhileLoading raw current (build registry sources [])
        (buildAlong registry sources order Workshop.empty) = .ok c ↔
      ∃ d, (Packages.compile registry sources).resolve raw .condition current = .ok d ∧
        d.conditionRef = c) ∧
    (∀ raw current, sources.conditionWhileLoading raw current (build registry sources [])
        (buildAll registry sources) =
      ((Packages.compile registry sources).resolve raw .condition current).map
        Resolved.conditionRef) := by
  refine ⟨?_, ?_, compile_count_diagnostics, ?_, ?_, ?_, conditionWhileLoading_buildAll⟩
  · intro k id hdeclares
    rw [compile_isSome_iff_of_isBroken, hdeclares]
    cases (Packages.compile registry sources).isBroken k id <;> simp [Xor]
  · intro k id hdeclares
    have hbroken : (Packages.compile registry sources).isBroken k id = false := by
      rw [← Bool.not_eq_true, compile_isBroken, hdeclares]
      simp
    refine ⟨Option.not_isSome_iff_eq_none.1 ?_, hbroken⟩
    rw [compile_isSome_iff_of_isBroken, hdeclares]
    simp
  · intro raw k current
    refine ⟨compile_resolves_iff, fun d => compile_resolve_eq_ok_iff,
      fun e => compile_resolve_eq_error_iff, fun e he => ?_⟩
    exact Sources.check_error (Sources.locate_error he)
  · intro raw current builder w c hc
    cases hlocate : sources.locate (Kind.condition.read raw).2 .condition current with
    | error e =>
      rw [Sources.conditionWhileLoading_of_error hlocate] at hc
      cases hc
    | ok id =>
      rw [Sources.conditionWhileLoading_of_ok hlocate] at hc
      cases hbuilt : (builder .condition id w).1 with
      | error e =>
        rw [hbuilt] at hc
        cases hc
      | ok d =>
        rw [hbuilt] at hc
        cases hc
        exact ⟨rfl, rfl⟩
  · intro raw current order c
    exact conditionWhileLoading_eq_ok_iff order

/-- The calm wolf is built, so it is not broken, and with an exclamation mark its name leads to it
negated.  A greeting is no condition. -/
theorem compile_partitions_of_negation :
    (Packages.compile manners wild).isBroken .condition ⟨"woods", "calm"⟩ = false ∧
    (Packages.compile manners wild).resolve "!calm" .condition "woods" =
      .ok ⟨⟨"woods", "calm"⟩, true, Condition.sneaking⟩ ∧
    (Packages.compile manners wild).resolve "greeting" .condition "woods" =
      .error ⟨⟨"woods", "greeting"⟩, .condition, .wrongKind .conversation⟩ := by
  obtain ⟨hdeclared, -, -, hresolve, -⟩ := compile_partitions manners wild
  have hfind : (Packages.compile manners wild).built.find? .condition ⟨"woods", "calm"⟩ =
      some Condition.sneaking :=
    compile_find?.2 (mem_grounded_iff.2 ⟨some "sneak", .done Condition.sneaking (), rfl, rfl⟩)
  refine ⟨?_, ?_, ?_⟩
  · rcases hdeclared .condition ⟨"woods", "calm"⟩ rfl with ⟨-, hnot⟩ | ⟨-, hnone⟩
    · exact Bool.eq_false_iff.2 hnot
    · rw [hfind] at hnone
      exact absurd rfl hnone
  · exact ((hresolve "!calm" .condition "woods").2.1 _).2 ⟨rfl, rfl, hfind⟩
  · exact ((hresolve "greeting" .condition "woods").2.2.1 _).2 (.inl rfl)

end Questbook
