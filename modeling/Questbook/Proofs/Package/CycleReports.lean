/-
Questbook/Proofs/Package/CycleReports.lean

Who is told of a reference cycle.

The error that reports a cycle ends every plan on the stack, one after the other, so that it is
recorded for each definition on the cycle.  While it is on its way some of these are still to come:
those that are on the stack.  That is what `Casebook` says, and what a search keeps
(`build_casebook`).

A definition is told of a cycle that it is on if it comes back to itself through the references at
which plans stop; it does not matter which member is met first, since the first one of them to fail
is told, and all the others with it.  A definition that reaches itself only through a reference
behind one that fails is broken, but hears of another cycle, or of a broken definition.

Main results: `cycles_are_genuine_and_shared` and `told_of_first_references`.
-/
import Questbook.Proofs.Package.Cycles
import Questbook.Proofs.Package.Failures

namespace Questbook

variable {registry : Registry} {sources : Sources} {k : Kind} {id : ObjectId}
variable {x y : Kind × ObjectId} {stack : List (Kind × ObjectId)}

/-! ### The casebook -/

/-- An error reports a reference cycle. -/
def BuildError.Reports (e : BuildError) (k : Kind) (path : List ObjectId) : Prop :=
  ∃ id, e = .notFound ⟨id, k, .cycle path⟩

/-- An error that reports a cycle is passed on as it is. -/
theorem BuildError.Reports.notFound_seenBy {e : BuildError} {k' : Kind} {path : List ObjectId}
    (h : e.Reports k' path) : .notFound (e.seenBy k id) = e := by
  obtain ⟨i, rfl⟩ := h
  rfl

/-- What is passed on reports a cycle only if the error does. -/
theorem BuildError.reports_of_seenBy {e : BuildError} {k' : Kind} {path : List ObjectId}
    (h : (BuildError.notFound (e.seenBy k id)).Reports k' path) : e.Reports k' path := by
  obtain ⟨i, h⟩ := h
  unfold seenBy at h
  split at h
  · exact ⟨_, h⟩
  · cases h

/-- A definition is told of a cycle that it is on. -/
def Told (x : Kind × ObjectId) (e : BuildError) : Prop := ∃ path, e.Reports x.1 path ∧ x.2 ∈ path

/-- A failure is that of a plan which was carried out with its definition under construction. -/
def Failure.Arises (registry : Registry) (sources : Sources) (f : Failure) : Prop :=
  ∃ stack w plan, w.Sound registry sources ∧ Trail registry sources stack f.key ∧
    f.key ∉ stack ∧ blueprint? registry sources f.kind f.id = some (f.line, plan) ∧
    (plan.run sources f.id.package (build registry sources (f.key :: stack)) w).1 = .error f.error

/-- What is known of the failures so far, with some definitions under construction and perhaps an
error that is about to end their plans. -/
structure Casebook (registry : Registry) (sources : Sources) (stack : List (Kind × ObjectId))
    (fs : List Failure) (w : Workshop) (pending : Option BuildError) : Prop where
  sound : w.Sound registry sources
  apart : w.Apart stack
  keys : fs.map Failure.key = w.broken.reverse
  arises : ∀ f ∈ fs, f.Arises registry sources
  /-- Where a cycle is reported there is one. -/
  genuine : ∀ f ∈ fs, ∀ k path, f.error.Reports k path → CyclePath registry sources k path
  /-- It is reported for each definition on it, or is going to be. -/
  shared : ∀ f ∈ fs, ∀ k path, f.error.Reports k path → ∀ a ∈ path,
    (∃ g ∈ fs, g.key = (k, a) ∧ g.error = f.error) ∨
      ((k, a) ∈ stack ∧ pending = some f.error)
  /-- A definition that comes back to itself is told so. -/
  told : ∀ f ∈ fs, Cyclic registry sources f.key → Told f.key f.error
  /-- What is said of recorded errors is said of the pending one. -/
  pending : ∀ e, pending = some e → ∀ k path, e.Reports k path →
    CyclePath registry sources k path ∧
      ∀ a ∈ path, (∃ g ∈ fs, g.key = (k, a) ∧ g.error = e) ∨ (k, a) ∈ stack

namespace Casebook

variable {fs : List Failure} {w : Workshop} {e : BuildError}

/-- Before anything is built. -/
theorem empty : Casebook registry sources [] [] Workshop.empty none where
  sound := Workshop.sound_empty registry sources
  apart := ⟨.nil, fun _ hx => absurd hx List.not_mem_nil⟩
  keys := rfl
  arises _ hf := absurd hf List.not_mem_nil
  genuine _ hf := absurd hf List.not_mem_nil
  shared _ hf := absurd hf List.not_mem_nil
  told _ hf := absurd hf List.not_mem_nil
  pending := nofun

theorem mem_broken_iff {pending : Option BuildError}
    (h : Casebook registry sources stack fs w pending) : x ∈ w.broken ↔ ∃ f ∈ fs, f.key = x := by
  rw [← List.mem_reverse, ← h.keys, List.mem_map]

/-- Where no error is pending, all of a cycle is recorded. -/
theorem recorded (h : Casebook registry sources stack fs w none) {f : Failure} (hf : f ∈ fs)
    {path : List ObjectId} (hreports : f.error.Reports k path) {a : ObjectId} (ha : a ∈ path) :
    ∃ g ∈ fs, g.key = (k, a) ∧ g.error = f.error := by
  rcases h.shared f hf k path hreports a ha with hg | ⟨-, hnone⟩
  · exact hg
  · cases hnone

/-- An error comes up: if it reports a cycle, that is one of definitions on the stack. -/
theorem raise (h : Casebook registry sources stack fs w none)
    (he : ∀ k path, e.Reports k path → CyclePath registry sources k path ∧
      ∀ a ∈ path, (k, a) ∈ stack) : Casebook registry sources stack fs w (some e) where
  sound := h.sound
  apart := h.apart
  keys := h.keys
  arises := h.arises
  genuine := h.genuine
  shared _ hf _ _ hreports _ ha := .inl (h.recorded hf hreports ha)
  told := h.told
  pending e' he' k path hreports := by
    cases he'
    exact (he k path hreports).imp_right fun hmem a ha => .inr (hmem a ha)

/-- With a definition put on the stack. -/
theorem push (h : Casebook registry sources stack fs w none) (hx : x ∉ w.broken) :
    Casebook registry sources (x :: stack) fs w none where
  sound := h.sound
  apart := h.apart.push hx
  keys := h.keys
  arises := h.arises
  genuine := h.genuine
  shared _ hf _ _ hreports _ ha := .inl (h.recorded hf hreports ha)
  told := h.told
  pending := nofun

/-- With nothing on the stack, nothing is pending. -/
theorem settle {pending : Option BuildError} (h : Casebook registry sources [] fs w pending) :
    Casebook registry sources [] fs w none where
  sound := h.sound
  apart := h.apart
  keys := h.keys
  arises := h.arises
  genuine := h.genuine
  shared f hf k path hreports a ha := by
    rcases h.shared f hf k path hreports a ha with hg | ⟨hmem, -⟩
    · exact .inl hg
    · cases hmem
  told := h.told
  pending := nofun

/-- Taking a definition that is built from the stack. -/
theorem keep {d : k.Def} (h : Casebook registry sources ((k, id) :: stack) fs w none)
    (hd : d ∈ grounded registry sources k id) :
    Casebook registry sources stack fs (w.keep k id d) none where
  sound := (h.sound.keep hd).1
  apart := ⟨h.apart.once, fun x hx => h.apart.spared x (List.mem_cons_of_mem _ hx)⟩
  keys := h.keys
  arises := h.arises
  genuine := h.genuine
  shared _ hf _ _ hreports _ ha := .inl (h.recorded hf hreports ha)
  told := h.told
  pending := nofun

/-- Taking a definition that has failed from the stack, with its failure recorded. -/
theorem record {line : Option String}
    (h : Casebook registry sources ((k, id) :: stack) fs w (some e)) (hstack : (k, id) ∉ stack)
    (hdeclared : (k, id) ∈ sources.declared) (hnot : ∀ d, d ∉ grounded registry sources k id)
    (harises : Failure.Arises registry sources ⟨k, id, line, e⟩)
    (htold : Cyclic registry sources (k, id) → Told (k, id) e) :
    Casebook registry sources stack (fs ++ [⟨k, id, line, e⟩]) (w.record k id line e)
      (some (.notFound (e.seenBy k id))) := by
  -- Whoever is on the path has failed with this error before, or does so now, or is on the stack.
  have hpending : ∀ k' path, e.Reports k' path → ∀ a ∈ path,
      (∃ g ∈ fs ++ [⟨k, id, line, e⟩], g.key = (k', a) ∧ g.error = e) ∨ (k', a) ∈ stack := by
    intro k' path hreports a ha
    rcases (h.pending e rfl k' path hreports).2 a ha with ⟨g, hg, hkey⟩ | hmem
    · exact .inl ⟨g, List.mem_append_left _ hg, hkey⟩
    · rcases List.mem_cons.1 hmem with heq | hmem
      · exact .inl ⟨_, List.mem_append_right _ List.mem_cons_self, heq.symm, rfl⟩
      · exact .inr hmem
  refine ⟨(h.sound.record hdeclared hnot line e).1, h.apart.record hstack line e, ?_, ?_, ?_, ?_,
    ?_, ?_⟩
  · rw [List.map_append, h.keys]
    exact List.reverse_cons.symm
  · intro f hf
    rcases List.mem_append.1 hf with hf | hf
    · exact h.arises f hf
    · exact List.mem_singleton.1 hf ▸ harises
  · intro f hf k' path hreports
    rcases List.mem_append.1 hf with hf | hf
    · exact h.genuine f hf k' path hreports
    · obtain rfl := List.mem_singleton.1 hf
      exact (h.pending e rfl k' path hreports).1
  · intro f hf k' path hreports a ha
    by_cases hf' : f.error = e
    · -- The error goes on as it is, to those of the path that are still on the stack.
      rw [hf'] at hreports ⊢
      rw [hreports.notFound_seenBy]
      exact (hpending k' path hreports a ha).imp_right fun hmem => ⟨hmem, rfl⟩
    · rcases List.mem_append.1 hf with hf | hf
      · rcases h.shared f hf k' path hreports a ha with ⟨g, hg, hkey⟩ | ⟨-, heq⟩
        · exact .inl ⟨g, List.mem_append_left _ hg, hkey⟩
        · exact absurd (Option.some.inj heq).symm hf'
      · exact absurd (congrArg Failure.error (List.mem_singleton.1 hf)) hf'
  · intro f hf hcyclic
    rcases List.mem_append.1 hf with hf | hf
    · exact h.told f hf hcyclic
    · obtain rfl := List.mem_singleton.1 hf
      exact htold hcyclic
  · intro e' he' k' path hreports
    cases he'
    have hreports' := BuildError.reports_of_seenBy hreports
    rw [hreports'.notFound_seenBy]
    exact ⟨(h.pending e rfl k' path hreports').1, hpending k' path hreports'⟩

end Casebook

/-! ### The search -/

/-- The casebook after an answer or an error on the way to `x`.  If `x` comes back to itself, it is
told so by the error, unless it had failed before. -/
structure Casebook.After (registry : Registry) (sources : Sources) (stack : List (Kind × ObjectId))
    (fs : List Failure) (w : Workshop) (x : Kind × ObjectId) (before : Prop) {α : Type}
    (answer : Except BuildError α) : Prop where
  ok : ∀ a, answer = .ok a → Casebook registry sources stack fs w none
  error : ∀ e, answer = .error e → Casebook registry sources stack fs w (some e)
  told : ∀ e, answer = .error e → Cyclic registry sources x → before ∨ Told x e

/-- Searches with a stack keep the casebook. -/
def KeepCasebook (registry : Registry) (sources : Sources) (stack : List (Kind × ObjectId)) :
    Prop :=
  ∀ k id w fs, Casebook registry sources stack fs w none → Trail registry sources stack (k, id) →
    Casebook.After registry sources stack (fs ++ buildFailures registry sources stack k id w)
      (build registry sources stack k id w).2 (k, id) ((k, id) ∈ w.broken)
      ((build registry sources stack k id w).1.mapError .notFound)

theorem NotFound.not_reports {e : NotFound} (h : ∀ path, e.reason ≠ .cycle path) (k : Kind)
    (path : List ObjectId) : ¬ (BuildError.notFound e).Reports k path := by
  rintro ⟨i, heq⟩
  cases heq
  exact h path rfl

theorem Sources.locate_not_reports {raw current : String} {e : NotFound}
    (h : sources.locate raw k current = .error e) (k' : Kind) (path : List ObjectId) :
    ¬ (BuildError.notFound e).Reports k' path := by
  refine NotFound.not_reports (fun path heq => ?_) k' path
  obtain ⟨-, -, hreason⟩ := Sources.check_error (Sources.locate_error h)
  rw [heq] at hreason
  simp at hreason

/-- If a definition that comes back to itself had failed, so has any other on its cycle. -/
theorem Casebook.broken_of_reaches {fs : List Failure} {w : Workshop}
    (h : Casebook registry sources stack fs w none) (hy : y ∈ w.broken)
    (hyx : Relation.ReflTransGen (Refers registry sources) y x)
    (hcyclic : Cyclic registry sources y) (hx : Cyclic registry sources x) : x ∈ w.broken := by
  obtain ⟨f, hf, rfl⟩ := h.mem_broken_iff.1 hy
  obtain ⟨path, hreports, hmem⟩ := h.told f hf hcyclic
  obtain ⟨hkind, hx⟩ := (h.genuine f hf _ path hreports).mem_of_reaches hmem hyx hx
  obtain ⟨g, hg, hkey, -⟩ := h.recorded hf hreports hx
  exact h.mem_broken_iff.2 ⟨g, hg, hkey.trans (Prod.ext hkind.symm rfl)⟩

theorem Casebook.After.of_error {fs : List Failure} {w : Workshop} {before : Prop} {α : Type}
    {e : BuildError} (h : Casebook registry sources stack fs w (some e))
    (htold : Cyclic registry sources x → before ∨ Told x e) :
    Casebook.After registry sources stack fs w x before (.error e : Except BuildError α) where
  ok := nofun
  error e' he := by
    cases he
    exact h
  told e' he := by
    cases he
    exact htold

theorem Casebook.After.of_ok {fs : List Failure} {w : Workshop} {before : Prop} {α : Type} (a : α)
    (h : Casebook registry sources stack fs w none) :
    Casebook.After registry sources stack fs w x before (.ok a : Except BuildError α) :=
  ⟨fun _ _ => h, nofun, nofun⟩

section

variable {σ α : Type} {fs : List Failure} {w : Workshop} {r : Reference}
variable (htrail : Trail registry sources stack x) (hx : x ∉ stack)

include htrail hx

/-- A reference that the definition on top of the stack makes is answered if it can be. -/
theorem Reference.resolve_met
    (hrefers : ∀ y, r.LeadsTo sources x.2.package y → Refers registry sources x y)
    (hsound : w.Sound registry sources) :
    (r.resolve sources x.2.package (build registry sources (x :: stack)) w).2.Sound
      registry sources ∧
    match (r.resolve sources x.2.package (build registry sources (x :: stack)) w).1 with
    | .ok t => r.Met sources x.2.package (grounded registry sources) t
    | .error _ => ∀ t, ¬ r.Met sources x.2.package (grounded registry sources) t := by
  rcases r.lead_or_objective with ⟨l, hlead⟩ | ⟨raw, rfl⟩
  · rw [resolve_of_lead hlead]
    cases hlocate : sources.locate l.name l.kind x.2.package with
    | error e =>
      refine ⟨hsound, fun t hmet => ?_⟩
      obtain ⟨id, d, hlocate', -⟩ := (Reference.met_of_lead hlead).1 hmet
      cases hlocate.symm.trans hlocate'
    | ok id =>
      have htrail' := htrail.push hx (hrefers (l.kind, id) ⟨l, hlead, rfl, hlocate⟩)
      have hverdict := build_verdict hsound htrail'.waits
      dsimp only
      refine ⟨hverdict.sound, ?_⟩
      rcases hresult : (build registry sources (x :: stack) l.kind id w).1 with e | d
      · intro t hmet
        obtain ⟨id', d, hlocate', hd, -⟩ := (Reference.met_of_lead hlead).1 hmet
        cases hlocate.symm.trans hlocate'
        exact (hverdict.error e hresult).1 d hd
      · exact .found hlead hlocate (hverdict.ok d hresult).1
  · have hresolve : (Reference.objective raw).resolve sources x.2.package
        (build registry sources (x :: stack)) w = (sources.locate raw .objective x.2.package, w) :=
      rfl
    rw [hresolve]
    cases hlocate : sources.locate raw .objective x.2.package with
    | ok id => exact ⟨hsound, .declared hlocate⟩
    | error e =>
      refine ⟨hsound, fun t hmet => ?_⟩
      cases hmet with
      | found hlead => cases hlead
      | declared hlocate' => cases hlocate.symm.trans hlocate'

/-- A reference that the definition on top of the stack makes keeps the casebook. -/
theorem Reference.resolve_casebook (hdeeper : KeepCasebook registry sources (x :: stack))
    (hrefers : ∀ y, r.LeadsTo sources x.2.package y → Refers registry sources x y)
    (hcasebook : Casebook registry sources (x :: stack) fs w none) :
    Casebook.After registry sources (x :: stack)
      (fs ++ r.failures sources x.2.package (buildFailures registry sources (x :: stack)) w)
      (r.resolve sources x.2.package (build registry sources (x :: stack)) w).2 x
      (¬ ∃ y, r.LeadsTo sources x.2.package y ∧
        Relation.ReflTransGen (Refers registry sources) y x)
      ((r.resolve sources x.2.package (build registry sources (x :: stack)) w).1.mapError
        .notFound) := by
  rcases r.lead_or_objective with ⟨l, hlead⟩ | ⟨raw, rfl⟩
  · rw [failures_of_lead hlead, resolve_of_lead hlead]
    cases hlocate : sources.locate l.name l.kind x.2.package with
    | error e =>
      dsimp only
      rw [List.append_nil]
      refine .of_error (hcasebook.raise fun k path hreports =>
        absurd hreports (Sources.locate_not_reports hlocate k path)) fun _ => .inl ?_
      rintro ⟨y, ⟨l', hlead', -, hlocate'⟩, -⟩
      cases hlead.symm.trans hlead'
      cases hlocate.symm.trans hlocate'
    | ok id =>
      have hleads : r.LeadsTo sources x.2.package (l.kind, id) := ⟨l, hlead, rfl, hlocate⟩
      have hafter := hdeeper l.kind id w fs hcasebook (htrail.push hx (hrefers _ hleads))
      dsimp only
      rcases hresult : build registry sources (x :: stack) l.kind id w with ⟨e | d, w'⟩
      · rw [hresult] at hafter
        have hpending := hafter.error _ rfl
        refine .of_error hpending fun hcyclic => ?_
        by_cases hback : ∃ y, r.LeadsTo sources x.2.package y ∧
            Relation.ReflTransGen (Refers registry sources) y x
        · refine .inr ?_
          obtain ⟨y, hy, hyx⟩ := hback
          obtain rfl := hy.unique hleads
          have hcyclic' : Cyclic registry sources (l.kind, id) :=
            .tail' hyx (hrefers _ hleads)
          rcases hafter.told _ rfl hcyclic' with hbroken | ⟨path, hreports, hmem⟩
          · -- All of the cycle would have failed, and with it what is on the stack.
            have hfailed := hcasebook.broken_of_reaches hbroken hyx hcyclic' hcyclic
            exact absurd hfailed (hcasebook.apart.spared x List.mem_cons_self)
          · have hpath := (hpending.pending _ rfl _ path hreports).1
            obtain ⟨hkind, hx⟩ := hpath.mem_of_reaches hmem hyx hcyclic
            exact ⟨path, hkind ▸ hreports, hx⟩
        · exact .inl hback
      · rw [hresult] at hafter
        exact .of_ok _ (hafter.ok d rfl)
  · -- An objective is named and not built, so that no cycle goes through the reference.
    show Casebook.After registry sources (x :: stack) (fs ++ []) w x _
      ((sources.locate raw .objective x.2.package).mapError .notFound)
    rw [List.append_nil]
    cases hlocate : sources.locate raw .objective x.2.package with
    | ok id => exact .of_ok _ hcasebook
    | error e =>
      refine .of_error (hcasebook.raise fun k path hreports =>
        absurd hreports (Sources.locate_not_reports hlocate k path)) fun _ => .inl ?_
      rintro ⟨y, ⟨l, hlead, -⟩, -⟩
      cases hlead

/-- The plan of the definition on top of the stack keeps the casebook. -/
theorem Plan.run_casebook {plan : Plan σ α} {out : Option σ} {refs : List Reference}
    (hdeeper : KeepCasebook registry sources (x :: stack)) (hmakes : plan.Makes out refs)
    (hrefers : ∀ y, plan.Asks sources x.2.package (grounded registry sources) y →
      Refers registry sources x y)
    (hcyclic : Cyclic registry sources x → ∃ y,
      plan.Asks sources x.2.package (grounded registry sources) y ∧
        Relation.ReflTransGen (Refers registry sources) y x)
    (hcasebook : Casebook registry sources (x :: stack) fs w none) :
    Casebook.After registry sources (x :: stack)
      (fs ++ plan.failures sources x.2.package (build registry sources (x :: stack))
        (buildFailures registry sources (x :: stack)) w)
      (plan.run sources x.2.package (build registry sources (x :: stack)) w).2.2 x False
      (plan.run sources x.2.package (build registry sources (x :: stack)) w).1 := by
  induction plan generalizing fs w refs with
  | done a s' =>
    rw [Plan.failures, List.append_nil]
    exact .of_ok a hcasebook
  | fail e s' =>
    rw [Plan.failures, List.append_nil]
    refine .of_error (hcasebook.raise fun k path hreports => ?_) fun hx => ?_
    · obtain ⟨i, heq⟩ := hreports
      exact absurd heq (hmakes.2.2 _)
    · obtain ⟨y, hasks, -⟩ := hcyclic hx
      exact hasks.elim
  | refer r s' next ih =>
    have hmet := (Reference.resolve_met htrail hx (fun y hleads => hrefers y (.inl hleads))
      hcasebook.sound).2
    have hafter := Reference.resolve_casebook htrail hx hdeeper
      (fun y hleads => hrefers y (.inl hleads)) hcasebook
    rcases hresult : r.resolve sources x.2.package (build registry sources (x :: stack)) w
      with ⟨e | t, w'⟩
    · rw [hresult] at hmet hafter
      rw [Plan.run, Plan.failures, hresult, List.append_nil]
      refine .of_error (hafter.error _ rfl) fun hx => ?_
      rcases hafter.told _ rfl hx with hnone | htold
      · -- A reference that fails is the last one, so that the way back begins with it.
        obtain ⟨y, hleads | ⟨t, hmet', -⟩, hyx⟩ := hcyclic hx
        · exact absurd ⟨y, hleads, hyx⟩ hnone
        · exact absurd hmet' (hmet t)
      · exact .inr htold
    · rw [hresult] at hmet hafter
      rw [Plan.run, Plan.failures, hresult, ← List.append_assoc]
      obtain ⟨rest, -, hnext⟩ := hmakes
      refine ih t (hnext t) (fun y hasks => hrefers y (.inr ⟨t, hmet, hasks⟩)) (fun hx => ?_)
        (hafter.ok t rfl)
      obtain ⟨y, hleads | ⟨t', hmet', hasks⟩, hyx⟩ := hcyclic hx
      · -- What comes back to `x` is not built, but this reference was answered.
        obtain ⟨d, hd⟩ := hleads.exists_of_met hmet
        exact absurd hd (hx.not_grounded hyx d)
      · obtain rfl := hmet'.unique hmet fun _ _ _ hd _ hd' => grounded_unique hd hd'
        exact ⟨y, hasks, hyx⟩

end

/-- The plan of a definition keeps the casebook, carried out with the definition on the stack. -/
theorem blueprint_casebook (horderly : registry.Orderly) {fs : List Failure} {w : Workshop}
    {line : Option String} {plan : Plan Unit k.Def}
    (hblueprint : blueprint? registry sources k id = some (line, plan))
    (htrail : Trail registry sources stack (k, id)) (hstack : (k, id) ∉ stack)
    (hdeeper : KeepCasebook registry sources ((k, id) :: stack))
    (hcasebook : Casebook registry sources ((k, id) :: stack) fs w none) :
    Casebook.After registry sources ((k, id) :: stack)
      (fs ++ plan.failures sources id.package (build registry sources ((k, id) :: stack))
        (buildFailures registry sources ((k, id) :: stack)) w)
      (plan.run sources id.package (build registry sources ((k, id) :: stack)) w).2.2 (k, id) False
      (plan.run sources id.package (build registry sources ((k, id) :: stack)) w).1 := by
  obtain ⟨refs, out, -, hmakes⟩ := horderly sources k id line plan hblueprint
  refine Plan.run_casebook htrail hstack hdeeper hmakes
    (fun y hasks => ⟨line, plan, hblueprint, hasks⟩) (fun hcyclic => ?_) hcasebook
  obtain ⟨y, ⟨line', plan', hblueprint', hasks⟩, hreach⟩ := Relation.TransGen.head'_iff.1 hcyclic
  cases hblueprint.symm.trans hblueprint'
  exact ⟨y, hasks, hreach⟩

/-- **A search keeps the casebook.** -/
theorem build_casebook (horderly : registry.Orderly) {fs : List Failure} {w : Workshop}
    (hcasebook : Casebook registry sources stack fs w none)
    (htrail : Trail registry sources stack (k, id)) :
    Casebook.After registry sources stack (fs ++ buildFailures registry sources stack k id w)
      (build registry sources stack k id w).2 (k, id) ((k, id) ∈ w.broken)
      ((build registry sources stack k id w).1.mapError .notFound) := by
  -- For any failures so far, as each reference of a plan adds its own to them.
  revert fs
  fun_induction build registry sources stack k id w with
  | case1 stack k id w d hfind =>
    intro fs hcasebook
    have hnone : w.built.find? k id ≠ none := by rw [hfind]; exact Option.some_ne_none d
    rw [buildFailures_eq_nil fun h => absurd h hnone, List.append_nil]
    exact .of_ok d hcasebook
  | case2 stack k id w hfind hbroken =>
    -- It has failed before, and that it is broken reports no cycle.
    intro fs hcasebook
    rw [buildFailures_eq_nil fun _ hnot => Bool.noConfusion (hbroken.symm.trans hnot),
      List.append_nil]
    have hmem : (k, id) ∈ w.broken := by simpa using hbroken
    refine .of_error (hcasebook.raise fun k' path hreports => ?_) fun _ => .inl hmem
    exact absurd hreports (NotFound.not_reports (by simp) k' path)
  | case3 stack k id w hfind hbroken hstack =>
    -- It is asked for while it is being built: the cycle is what the stack has above it.
    intro fs hcasebook
    rw [buildFailures_eq_nil fun _ _ hnot => absurd hstack hnot, List.append_nil]
    have hpath := htrail.cyclePath horderly hstack
    refine .of_error (hcasebook.raise fun k' path hreports => ?_) fun _ =>
      .inr ⟨_, ⟨id, rfl⟩, List.mem_cons_self⟩
    obtain ⟨i, heq⟩ := hreports
    cases heq
    exact ⟨hpath, fun a ha => htrail.mem_of_mem_cyclePath horderly hstack ha⟩
  | case4 stack k id w hfind hbroken hstack hblueprint =>
    -- What is not declared refers to nothing.
    intro fs hcasebook
    rw [buildFailures_eq_nil fun _ _ _ => hblueprint, List.append_nil]
    refine .of_error (hcasebook.raise fun k' path hreports => ?_) fun hcyclic => ?_
    · exact absurd hreports (NotFound.not_reports (by simp) k' path)
    · obtain ⟨y, hrefers, -⟩ := Relation.TransGen.head'_iff.1 hcyclic
      obtain ⟨line, plan, hblueprint', -⟩ := hrefers
      cases hblueprint.symm.trans hblueprint'
  | case5 stack k id w hfind hbroken hstack line plan hblueprint deeper d s w' hrun ih =>
    -- What its plan came to is true when it is off the stack as well.
    intro fs hcasebook
    have hnot : (k, id) ∉ w.broken := by simpa using hbroken
    have hplan := blueprint_casebook horderly hblueprint htrail hstack
      (fun k' id' w' _ hw hwaits => ih k' id' w' hwaits hw)
      (hcasebook.push hnot)
    have hd := (run_blueprint hblueprint (fun k' id' w' hw hwaits => build_verdict hw hwaits)
      hcasebook.sound htrail.waits).2.2.1
    rw [buildFailures_of_blueprint hfind hbroken hstack hblueprint]
    rw [hrun] at hplan hd ⊢
    rw [List.append_nil]
    exact .of_ok d ((hplan.ok d rfl).keep (hd d rfl))
  | case6 stack k id w hfind hbroken hstack line plan hblueprint deeper e s w' hrun ih =>
    -- Its failure comes after those of its plan, and its error goes to whoever asked.
    intro fs hcasebook
    have hnot : (k, id) ∉ w.broken := by simpa using hbroken
    have hplan := blueprint_casebook horderly hblueprint htrail hstack
      (fun k' id' w' _ hw hwaits => ih k' id' w' hwaits hw)
      (hcasebook.push hnot)
    have hd := (run_blueprint hblueprint (fun k' id' w' hw hwaits => build_verdict hw hwaits)
      hcasebook.sound htrail.waits).2.2.2
    rw [buildFailures_of_blueprint hfind hbroken hstack hblueprint, ← List.append_assoc]
    rw [hrun] at hplan hd ⊢
    have htold : Cyclic registry sources (k, id) → Told (k, id) e :=
      fun hcyclic => (hplan.told e rfl hcyclic).resolve_left not_false
    have harises : Failure.Arises registry sources ⟨k, id, line, e⟩ :=
      ⟨stack, w, plan, hcasebook.sound, htrail, hstack, hblueprint, congrArg Prod.fst hrun⟩
    refine .of_error ((hplan.error e rfl).record hstack (mem_declared_of_blueprint? hblueprint)
      (hd e rfl) harises htold) fun hcyclic => ?_
    obtain ⟨path, hreports, hmem⟩ := htold hcyclic
    refine .inr ⟨path, ?_, hmem⟩
    rwa [hreports.notFound_seenBy]

/-- Whatever is visited in whatever order, the casebook is kept. -/
theorem failuresAlong_casebook (horderly : registry.Orderly) (sources : Sources)
    (order : List (Kind × ObjectId)) :
    Casebook registry sources [] (failuresAlong registry sources order Workshop.empty)
      (buildAlong registry sources order Workshop.empty) none := by
  have hall : ∀ w fs, Casebook registry sources [] fs w none →
      Casebook registry sources [] (fs ++ failuresAlong registry sources order w)
        (buildAlong registry sources order w) none := by
    induction order with
    | nil =>
      intro w fs h
      rwa [failuresAlong, List.append_nil]
    | cons x rest ih =>
      intro w fs h
      have hafter := build_casebook horderly h (.nil (x.1, x.2))
      rw [failuresAlong, ← List.append_assoc]
      refine ih _ _ ?_
      cases hanswer : (build registry sources [] x.1 x.2 w).1 with
      | ok d => exact hafter.ok d (by rw [hanswer]; rfl)
      | error e => exact (hafter.error (.notFound e) (by rw [hanswer]; rfl)).settle
  exact hall Workshop.empty [] .empty

/-! ### What plans fail of -/

/-- A search fails because of a cycle, or as a broken definition, where there is something to be
built. -/
theorem build_error {w : Workshop} {e : NotFound}
    (h : (build registry sources stack k id w).1 = .error e)
    (hblueprint : ∃ b, blueprint? registry sources k id = some b) :
    (∃ k' path, (BuildError.notFound e).Reports k' path) ∨ e = ⟨id, k, .broken⟩ := by
  revert h
  fun_cases build registry sources stack k id w with
  | case1 d hfind =>
    intro h
    cases h
  | case2 hfind hbroken =>
    intro h
    cases h
    exact .inr rfl
  | case3 hfind hbroken hstack =>
    intro h
    cases h
    exact .inl ⟨_, _, id, rfl⟩
  | case4 hfind hbroken hstack hnone =>
    intro h
    obtain ⟨b, hb⟩ := hblueprint
    cases hnone.symm.trans hb
  | case5 hfind hbroken hstack line plan hblueprint deeper d s w' hrun =>
    intro h
    cases h
  | case6 hfind hbroken hstack line plan hblueprint deeper e' s w' hrun =>
    intro h
    cases h
    unfold BuildError.seenBy
    split
    · exact .inl ⟨_, _, _, rfl⟩
    · exact .inr rfl

/-- A reference that leads somewhere fails because the definition there does. -/
theorem Reference.exists_of_resolve_error {package : String} {builder : Builder} {r : Reference}
    {w : Workshop} {t : r.Target} {n : NotFound} (hthere : r.Met sources package ⊤ t)
    (h : (r.resolve sources package builder w).1 = .error n) :
    ∃ k id, r.LeadsTo sources package (k, id) ∧ (builder k id w).1 = .error n := by
  cases hthere with
  | declared hlocate =>
    have hok := hlocate.symm.trans h
    cases hok
  | @found _ l id d hlead hlocate _ =>
    rw [resolve_of_lead hlead, hlocate] at h
    refine ⟨l.kind, id, ⟨l, hlead, rfl, hlocate⟩, ?_⟩
    dsimp only at h
    cases hanswer : (builder l.kind id w).1 with
    | ok d =>
      rw [hanswer] at h
      cases h
    | error n' =>
      rw [hanswer] at h
      cases h
      rfl

theorem Plan.Asks.mem_declared {σ α : Type} {package : String} {S : Stock} {plan : Plan σ α}
    (h : plan.Asks sources package S x) : x ∈ sources.declared := by
  induction plan with
  | done => exact h.elim
  | fail => exact h.elim
  | refer r _ next ih =>
    rcases h with ⟨l, -, hkind, hlocate⟩ | ⟨t, -, h⟩
    · have hdeclares := (Sources.locate_eq_ok_iff.1 hlocate).2
      rw [hkind] at hdeclares
      exact Sources.declares_iff_mem_declared.1 hdeclares
    · exact ih t h

/-- A plan with nothing wrong about it fails of a definition that it refers to and that fails. -/
theorem Plan.exists_of_run_error {σ α : Type} {plan : Plan σ α} {w : Workshop} {e : BuildError}
    (htrail : Trail registry sources stack x) (hx : x ∉ stack)
    (hrefers : ∀ y, plan.Asks sources x.2.package (grounded registry sources) y →
      Refers registry sources x y)
    (hsound : w.Sound registry sources) (hfaultless : plan.Faultless sources x.2.package)
    (herror : (plan.run sources x.2.package (build registry sources (x :: stack)) w).1 =
      .error e) :
    ∃ k id n w', Refers registry sources x (k, id) ∧ w'.Sound registry sources ∧
      (build registry sources (x :: stack) k id w').1 = .error n ∧ e = .notFound n := by
  induction plan generalizing w with
  | done a s => cases herror
  | fail e' s => exact hfaultless.elim
  | refer r s next ih =>
    obtain ⟨⟨t, hthere⟩, hnext⟩ := hfaultless
    obtain ⟨hsound', hmet⟩ := Reference.resolve_met htrail hx
      (fun y hleads => hrefers y (.inl hleads)) hsound
    rcases hresult : r.resolve sources x.2.package (build registry sources (x :: stack)) w
      with ⟨n | t', w'⟩
    · rw [Plan.run, hresult] at herror
      cases herror
      obtain ⟨k, id, hleads, hbuild⟩ := Reference.exists_of_resolve_error hthere
        (congrArg Prod.fst hresult)
      exact ⟨k, id, n, w, hrefers _ (.inl hleads), hsound, hbuild, rfl⟩
    · rw [hresult] at hsound' hmet
      rw [Plan.run, hresult] at herror
      have hmet' : r.Met sources x.2.package ⊤ t' := Reference.Met.mono hmet le_top
      exact ih t' (fun y hasks => hrefers y (.inr ⟨t', hmet, hasks⟩)) hsound' (hnext t' hmet')
        herror

/-- A failure of a definition with nothing wrong about it reports a cycle or a broken definition
that it refers to. -/
theorem Failure.Arises.cause {f : Failure} (h : f.Arises registry sources)
    (hfaultless : sources.Faultless registry) :
    (∃ k path, f.error.Reports k path) ∨
      ∃ k id, Refers registry sources f.key (k, id) ∧ f.error = .notFound ⟨id, k, .broken⟩ ∧
        (k, id) ∈ sources.declared ∧ ∀ d, d ∉ grounded registry sources k id := by
  obtain ⟨stack, w, plan, hsound, htrail, hstack, hblueprint, hrun⟩ := h
  obtain ⟨k, id, n, w', hrefers, hsound', hbuild, heq⟩ := Plan.exists_of_run_error htrail hstack
    (fun y hasks => ⟨f.line, plan, hblueprint, hasks⟩) hsound (hfaultless _ _ _ _ hblueprint) hrun
  obtain ⟨line, plan', hblueprint', hasks⟩ := hrefers
  have hdeclared : (k, id) ∈ sources.declared := hasks.mem_declared
  rcases build_error hbuild (blueprint?_of_mem_declared registry hdeclared) with hcycle | rfl
  · exact .inl (heq ▸ hcycle)
  · have htrail' := htrail.push hstack ⟨line, plan', hblueprint', hasks⟩
    have hverdict := build_verdict hsound' htrail'.waits
    exact .inr ⟨k, id, ⟨line, plan', hblueprint', hasks⟩, heq, hdeclared,
      (hverdict.error _ hbuild).1⟩

/-! ### A whole run -/

/-- A lair where the alpha follows the beta and the gamma, and either of them the alpha. -/
def lair : Sources where
  packages := (∅ : Table String PackageSource).insert "lair" { PackageSource.empty with
    conditions := .ofList
      [("alpha", "and beta,gamma"), ("beta", "and alpha"), ("gamma", "and alpha")] }

/-- A condition in the lair. -/
abbrev wolf (name : String) : Kind × ObjectId := (.condition, ⟨"lair", name⟩)

theorem lair_faultless : lair.Faultless (Vocabulary.registry ⟨true, true⟩) :=
  Sources.faultless_of_isFaultless (Vocabulary.orderly _) (by decide +kernel)

theorem alpha_refers :
    Refers (Vocabulary.registry ⟨true, true⟩) lair (wolf "alpha") (wolf "beta") :=
  refers_of_mentioned (Vocabulary.orderly _) lair_faultless (by decide +kernel)

theorem beta_refers : Refers (Vocabulary.registry ⟨true, true⟩) lair (wolf "beta") (wolf "alpha") :=
  refers_of_mentioned (Vocabulary.orderly _) lair_faultless (by decide +kernel)

theorem gamma_refers :
    Refers (Vocabulary.registry ⟨true, true⟩) lair (wolf "gamma") (wolf "alpha") :=
  refers_of_mentioned (Vocabulary.orderly _) lair_faultless (by decide +kernel)

theorem alpha_cyclic : Cyclic (Vocabulary.registry ⟨true, true⟩) lair (wolf "alpha") :=
  .tail (.single alpha_refers) beta_refers

/-- The gamma reaches itself, over the second reference of the alpha. -/
theorem gamma_mentions_cycle : Relation.TransGen (Mentions (Vocabulary.registry ⟨true, true⟩) lair)
    (wolf "gamma") (wolf "gamma") := by
  refine .tail (b := wolf "alpha") (.single ?_) ?_
  · exact (mentions_iff (Vocabulary.orderly _) lair_faultless).2 (by decide +kernel)
  · exact (mentions_iff (Vocabulary.orderly _) lair_faultless).2 (by decide +kernel)

/-- It does not come back to itself over the first one, which leads to the beta. -/
theorem gamma_not_cyclic : ¬ Cyclic (Vocabulary.registry ⟨true, true⟩) lair (wolf "gamma") := by
  intro hcyclic
  have hpath : CyclePath (Vocabulary.registry ⟨true, true⟩) lair .condition
      [⟨"lair", "alpha"⟩, ⟨"lair", "beta"⟩, ⟨"lair", "alpha"⟩] :=
    ⟨by decide, rfl, by decide, .cons_cons alpha_refers (.cons_cons beta_refers (.singleton _))⟩
  obtain ⟨y, hrefers, hreach⟩ := Relation.TransGen.head'_iff.1 hcyclic
  obtain rfl := hrefers.unique gamma_refers (hcyclic.not_grounded hreach)
    (alpha_cyclic.not_grounded .refl)
  have hmem := (hpath.mem_of_reaches List.mem_cons_self hreach hcyclic).2
  exact absurd hmem (by decide)

/-! ### The results -/

/-- **Who is told of a cycle of its own**, in whatever order the declared definitions are visited.

* A definition that reaches itself through the references that are written is broken, and fails
  once.
* It is told of a cycle that it is on if and only if it comes back to itself through references
  each of which is the first of its definition that cannot be built.
* Where nothing else is wrong, each failure reports a cycle, or a broken definition that is the
  first one to fail among those referred to.
-/
theorem told_of_first_references (i : Integrations) (sources : Sources)
    (order : List (Kind × ObjectId)) (hcover : sources.declared ⊆ order) :
    (∀ k id, Relation.TransGen (Mentions (Vocabulary.registry i) sources) (k, id) (k, id) →
      (failuresAlong (Vocabulary.registry i) sources order Workshop.empty).countP
        (fun f => f.kind = k ∧ f.id = id) = 1) ∧
    (∀ k id, Cyclic (Vocabulary.registry i) sources (k, id) ↔
      ∃ f ∈ failuresAlong (Vocabulary.registry i) sources order Workshop.empty,
        f.key = (k, id) ∧ Told (k, id) f.error) ∧
    (sources.Faultless (Vocabulary.registry i) →
      ∀ f ∈ failuresAlong (Vocabulary.registry i) sources order Workshop.empty,
        (∃ k path, f.error.Reports k path) ∨
        ∃ k id, Refers (Vocabulary.registry i) sources f.key (k, id) ∧
          f.error = .notFound ⟨id, k, .broken⟩ ∧
          (k, id) ∈ (buildAlong (Vocabulary.registry i) sources order Workshop.empty).broken) := by
  have hcasebook : Casebook (Vocabulary.registry i) sources []
      (failuresAlong (Vocabulary.registry i) sources order Workshop.empty)
      (buildAlong (Vocabulary.registry i) sources order Workshop.empty) none :=
    failuresAlong_casebook (Vocabulary.orderly i) sources order
  have hfails : ∀ k id, (k, id) ∈ sources.declared →
      (∀ d, d ∉ grounded (Vocabulary.registry i) sources k id) →
      ∃ f ∈ failuresAlong (Vocabulary.registry i) sources order Workshop.empty, f.key = (k, id) :=
    fun k id hdeclared hnot =>
      hcasebook.mem_broken_iff.1 ((mem_buildAlong_broken hcover).2 ⟨hdeclared, hnot⟩)
  refine ⟨fun k id hcycle => ?_, fun k id => ⟨fun hcyclic => ?_, ?_⟩, fun hfaultless f hf => ?_⟩
  · obtain ⟨y, ⟨line, plan, hblueprint, -⟩, -⟩ := Relation.TransGen.head'_iff.1 hcycle
    obtain ⟨f, hf, hkey⟩ := hfails k id (mem_declared_of_blueprint? hblueprint)
      (not_grounded_of_mentions_cycle (Vocabulary.orderly i) hcycle)
    exact failuresAlong_countP order hf hkey
  · obtain ⟨y, ⟨line, plan, hblueprint, -⟩, -⟩ := Relation.TransGen.head'_iff.1 hcyclic
    obtain ⟨f, hf, hkey⟩ := hfails k id (mem_declared_of_blueprint? hblueprint)
      (hcyclic.not_grounded .refl)
    exact ⟨f, hf, hkey, hkey ▸ hcasebook.told f hf (hkey ▸ hcyclic)⟩
  · rintro ⟨f, hf, -, path, hreports, hmem⟩
    exact (hcasebook.genuine f hf k path hreports).cyclic hmem
  · rcases (hcasebook.arises f hf).cause hfaultless with hcycle | ⟨k, id, hrefers, herror, hfailed⟩
    · exact .inl hcycle
    · exact .inr ⟨k, id, hrefers, herror, (mem_buildAlong_broken hcover).2 hfailed⟩

/-- In the lair each wolf fails once, and the alpha is told of a cycle that it is on. -/
theorem told_of_first_references_of_lair :
    (failuresAlong (Vocabulary.registry ⟨true, true⟩) lair (schedule lair) Workshop.empty).countP
      (fun f => f.kind = .condition ∧ f.id = ⟨"lair", "gamma"⟩) = 1 ∧
    (∃ f ∈ failuresAlong (Vocabulary.registry ⟨true, true⟩) lair (schedule lair) Workshop.empty,
      f.key = wolf "alpha" ∧ Told (wolf "alpha") f.error) ∧
    ∀ f ∈ failuresAlong (Vocabulary.registry ⟨true, true⟩) lair (schedule lair) Workshop.empty,
      (∃ k path, f.error.Reports k path) ∨
      ∃ k id, Refers (Vocabulary.registry ⟨true, true⟩) lair f.key (k, id) ∧
        f.error = .notFound ⟨id, k, .broken⟩ ∧
        (k, id) ∈ (buildAlong (Vocabulary.registry ⟨true, true⟩) lair (schedule lair)
          Workshop.empty).broken := by
  obtain ⟨honce, htold, hcause⟩ := told_of_first_references ⟨true, true⟩ lair (schedule lair)
    (declared_subset_schedule lair)
  exact ⟨honce _ _ gamma_mentions_cycle, (htold _ _).1 alpha_cyclic, hcause lair_faultless⟩

/-- The gamma of the lair reaches itself through references, with nothing wrong but cycles, and is
not told of a cycle that it is on. -/
theorem not_all_members_told : ¬ ∀ (i : Integrations) (sources : Sources)
    (order : List (Kind × ObjectId)), sources.declared ⊆ order →
    sources.Faultless (Vocabulary.registry i) → ∀ k id,
      Relation.TransGen (Mentions (Vocabulary.registry i) sources) (k, id) (k, id) →
      ∃ f ∈ failuresAlong (Vocabulary.registry i) sources order Workshop.empty,
        f.key = (k, id) ∧ Told (k, id) f.error := by
  intro hall
  obtain ⟨f, hf, -, path, hreports, hmem⟩ := hall ⟨true, true⟩ lair (schedule lair)
    (declared_subset_schedule lair) lair_faultless _ _ gamma_mentions_cycle
  have hcasebook := failuresAlong_casebook (Vocabulary.orderly ⟨true, true⟩) lair (schedule lair)
  exact gamma_not_cyclic ((hcasebook.genuine f hf _ path hreports).cyclic hmem)

end Questbook
