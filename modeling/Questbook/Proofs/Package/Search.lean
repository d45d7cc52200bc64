/-
Questbook/Proofs/Package/Search.lean

The search builds what is grounded, and condemns nothing else.

While a definition is built, each definition on the stack waits for it: were that one grounded, the
definition being built would be grounded at an earlier stage (`Waits`).  So a definition that is met
on the stack again is not grounded, since it would have to be so before itself, and a search that
gives up because of it has met nothing that is.  What was built and what was condemned so far is
kept in the workshop, and is right there however the search has come to it (`Workshop.Sound`).

Main result: `build_verdict`.  From there on the workshop of a whole run is right whatever the order
of the visits, as long as each declared definition is visited.
-/
import Questbook.Proofs.Package.Grounded

namespace Questbook

variable (registry : Registry) (sources : Sources)

/-! ### Workshops -/

/-- What was built is grounded, and what was condemned is declared and not grounded. -/
structure Workshop.Sound (w : Workshop) : Prop where
  built : ∀ k id d, w.built.find? k id = some d → d ∈ grounded registry sources k id
  broken : ∀ k id, (k, id) ∈ w.broken →
    (k, id) ∈ sources.declared ∧ ∀ d, d ∉ grounded registry sources k id

/-- One workshop has come of another: nothing built or condemned was lost. -/
structure Workshop.Grows (w w' : Workshop) : Prop where
  built : ∀ k id d, w.built.find? k id = some d → w'.built.find? k id = some d
  broken : ∀ x, x ∈ w.broken → x ∈ w'.broken

/-- Each definition on a stack waits for a definition: it is grounded at later stages only. -/
def Waits (stack : List (Kind × ObjectId)) (k : Kind) (id : ObjectId) : Prop :=
  ∀ x ∈ stack, ∀ n, (∃ d, d ∈ stage registry sources n x.1 x.2) →
    ∃ m, m < n ∧ ∃ d, d ∈ stage registry sources m k id

/-- What is said of a definition is right. -/
structure Verdict (stack : List (Kind × ObjectId)) (k : Kind) (id : ObjectId) (w : Workshop)
    (result : Except NotFound k.Def × Workshop) : Prop where
  sound : result.2.Sound registry sources
  grows : w.Grows result.2
  ok : ∀ d, result.1 = .ok d →
    d ∈ grounded registry sources k id ∧ result.2.built.find? k id = some d
  error : ∀ e, result.1 = .error e → (∀ d, d ∉ grounded registry sources k id) ∧
    ((k, id) ∈ sources.declared → (k, id) ∉ stack → (k, id) ∈ result.2.broken)

/-- What carrying something out has come to is right.  An answer has a property, and where there is
none, there is none at any of the stages at which one would be needed. -/
structure Upshot {ε α : Type} (need : Nat → Prop) (p : α → Prop) (w : Workshop)
    (answer : Except ε α) (w' : Workshop) : Prop where
  sound : w'.Sound registry sources
  grows : w.Grows w'
  ok : ∀ a, answer = .ok a → p a
  error : ∀ e, answer = .error e → ∀ n, ¬ need n

variable {registry sources}

theorem Workshop.Grows.refl (w : Workshop) : w.Grows w := ⟨fun _ _ _ h => h, fun _ h => h⟩

theorem Workshop.Grows.trans {w w' w'' : Workshop} (h : w.Grows w') (h' : w'.Grows w'') :
    w.Grows w'' :=
  ⟨fun k id d hd => h'.built k id d (h.built k id d hd), fun x hx => h'.broken x (h.broken x hx)⟩

theorem Workshop.sound_empty (registry : Registry) (sources : Sources) :
    Workshop.empty.Sound registry sources where
  built k id d h := by cases k <;> cases h
  broken k id h := by cases h

theorem Workshop.keep_find? (w : Workshop) (k k' : Kind) (id id' : ObjectId) (d : k.Def)
    {d' : k'.Def} (h : (w.keep k id d).built.find? k' id' = some d') :
    (∃ hk : k = k', id = id' ∧ hk ▸ d = d') ∨ w.built.find? k' id' = some d' := by
  by_cases hkey : (k, id) = (k', id')
  · cases hkey
    have hself : (w.keep k id d).built.find? k id = some d := w.built.find?_add_self k id d
    rw [hself] at h
    cases h
    exact .inl ⟨rfl, rfl, rfl⟩
  · have hother : (w.keep k id d).built.find? k' id' = w.built.find? k' id' :=
      w.built.find?_add_of_ne d hkey
    rw [hother] at h
    exact .inr h

/-- Keeping a definition that is grounded. -/
theorem Workshop.Sound.keep {w : Workshop} {k : Kind} {id : ObjectId} {d : k.Def}
    (h : w.Sound registry sources) (hd : d ∈ grounded registry sources k id) :
    (w.keep k id d).Sound registry sources ∧ w.Grows (w.keep k id d) := by
  refine ⟨⟨fun k' id' d' hfind => ?_, h.broken⟩, ⟨fun k' id' d' hfind => ?_, fun x hx => hx⟩⟩
  · rcases w.keep_find? k k' id id' d hfind with ⟨rfl, rfl, rfl⟩ | hfind
    · exact hd
    · exact h.built k' id' d' hfind
  · by_cases hkey : (k, id) = (k', id')
    · cases hkey
      -- A definition may be built again, but it is the same one, as no other is grounded.
      rw [grounded_unique (h.built k id d' hfind) hd]
      exact w.built.find?_add_self k id d
    · rw [← hfind]
      exact w.built.find?_add_of_ne d hkey

/-- Condemning a declared definition that is not grounded. -/
theorem Workshop.Sound.record {w : Workshop} {k : Kind} {id : ObjectId}
    (h : w.Sound registry sources) (hdeclared : (k, id) ∈ sources.declared)
    (hnot : ∀ d, d ∉ grounded registry sources k id) (line : Option String) (e : BuildError) :
    (w.record k id line e).Sound registry sources ∧ w.Grows (w.record k id line e) := by
  refine ⟨⟨h.built, fun k' id' hmem => ?_⟩, ⟨fun _ _ _ hfind => hfind, fun x hx => ?_⟩⟩
  · rcases List.mem_cons.1 hmem with hkey | hmem
    · cases hkey
      exact ⟨hdeclared, hnot⟩
    · exact h.broken k' id' hmem
  · exact List.mem_cons_of_mem _ hx

/-! ### Declared definitions -/

/-- A declared definition has a plan. -/
theorem blueprint?_of_mem_declared (registry : Registry) {k : Kind} {id : ObjectId}
    (h : (k, id) ∈ sources.declared) : ∃ b, blueprint? registry sources k id = some b := by
  obtain ⟨p, hp, hname⟩ := Sources.mem_declared_iff.1 h
  cases k with
  | conversation =>
    have hcontains : p.conversations.contains id.name = true := Table.contains_iff_mem_keys.2 hname
    obtain ⟨c, hc⟩ := Option.isSome_iff_exists.1 hcontains
    simp [blueprint?, Sources.conversation?, hp, hc]
  | condition | event | objective | var | item =>
    have hcontains : (p.lines _).contains id.name = true := Table.contains_iff_mem_keys.2 hname
    obtain ⟨l, hl⟩ := Option.isSome_iff_exists.1 hcontains
    simp [blueprint?, Sources.line?, hp, hl]

/-! ### Plans -/

theorem Reference.resolve_of_lead {package : String} {builder : Builder} {r : Reference}
    {l : Lead r.Target} (hlead : r.lead? = some l) (w : Workshop) :
    r.resolve sources package builder w =
      match sources.locate l.name l.kind package with
      | .error e => (.error e, w)
      | .ok id => ((builder l.kind id w).1.map (l.give id), (builder l.kind id w).2) := by
  have hmap : ∀ {α β γ : Type} (f : α → β) (g : β → γ) (x : Except NotFound α),
      (x.map f).map g = x.map fun a => g (f a) := by
    intro α β γ f g x
    cases x <;> rfl
  cases r with
  | objective raw => cases hlead
  | condition raw =>
    cases hlead
    simp only [Reference.resolve]
    cases sources.locate (stripNegation raw).2 .condition package with
    | error e => rfl
    | ok id => exact Prod.ext (hmap _ _ _) rfl
  | event raw | var raw | item raw =>
    cases hlead
    simp only [Reference.resolve]
    cases sources.locate raw _ package with
    | error e => rfl
    | ok id => exact Prod.ext (hmap _ _ _) rfl

section

variable {package : String} {stack : List (Kind × ObjectId)} {builder : Builder} {w : Workshop}
variable {need : Nat → Prop}

/-- The verdict on a definition that is needed as far as something else is. -/
theorem Verdict.upshot {k : Kind} {id : ObjectId} {result : Except NotFound k.Def × Workshop}
    (h : Verdict registry sources stack k id w result)
    (hneed : ∀ n, need n → ∃ d, d ∈ stage registry sources n k id) :
    Upshot registry sources need (· ∈ grounded registry sources k id) w result.1 result.2 where
  sound := h.sound
  grows := h.grows
  ok d hd := (h.ok d hd).1
  error e he n hn := by
    obtain ⟨d, hd⟩ := hneed n hn
    exact (h.error e he).1 d (stage_le_grounded n k id hd)

theorem Upshot.map {ε α β : Type} {p : α → Prop} {q : β → Prop} {answer : Except ε α}
    {w' : Workshop} {f : α → β} (h : Upshot registry sources need p w answer w')
    (hf : ∀ a, p a → q (f a)) : Upshot registry sources need q w (answer.map f) w' where
  sound := h.sound
  grows := h.grows
  ok b hb := by
    cases answer with
    | error e => cases hb
    | ok a =>
      cases hb
      exact hf a (h.ok a rfl)
  error e he := by
    cases answer with
    | error e' => exact h.error e' rfl
    | ok a => cases he

/-- A failure that has touched nothing, where nothing is needed. -/
theorem Upshot.failed {ε α : Type} {p : α → Prop} {e : ε} (hsound : w.Sound registry sources)
    (hneed : ∀ n, ¬ need n) : Upshot registry sources need p w (.error e) w :=
  ⟨hsound, .refl w, nofun, fun _ _ => hneed⟩

/-- A reference that leads to a definition, resolved by a builder whose verdicts are right. -/
theorem Reference.resolve_lead_upshot {r : Reference} {l : Lead r.Target}
    (hlead : r.lead? = some l)
    (hbuilder : ∀ k id w, w.Sound registry sources →
      (∀ n, need n → ∃ d, d ∈ stage registry sources n k id) →
      Verdict registry sources stack k id w (builder k id w))
    (hsound : w.Sound registry sources)
    (hneed : ∀ n, need n → ∃ t, r.Met sources package (stage registry sources n) t) :
    Upshot registry sources need (r.Met sources package (grounded registry sources)) w
      (r.resolve sources package builder w).1 (r.resolve sources package builder w).2 := by
  have hlocated : ∀ n, need n → ∃ id d, sources.locate l.name l.kind package = .ok id ∧
      d ∈ stage registry sources n l.kind id := by
    intro n hn
    obtain ⟨t, hmet⟩ := hneed n hn
    obtain ⟨id, d, hlocate, hd, -⟩ := (Reference.met_of_lead hlead).1 hmet
    exact ⟨id, d, hlocate, hd⟩
  rw [Reference.resolve_of_lead hlead]
  cases hlocate : sources.locate l.name l.kind package with
  | error err =>
    refine .failed hsound fun n hn => ?_
    obtain ⟨id, d, hlocate', -⟩ := hlocated n hn
    cases hlocate.symm.trans hlocate'
  | ok id =>
    have hfound : ∀ n, need n → ∃ d, d ∈ stage registry sources n l.kind id := by
      intro n hn
      obtain ⟨id', d, hlocate', hd⟩ := hlocated n hn
      cases hlocate.symm.trans hlocate'
      exact ⟨d, hd⟩
    have hverdict := hbuilder l.kind id w hsound hfound
    exact (hverdict.upshot hfound).map fun d hd => .found hlead hlocate hd

/-- A reference that is resolved by a builder whose verdicts are right.  `need` holds of the stages
at which it would have to be answered. -/
theorem Reference.resolve_upshot {r : Reference}
    (hbuilder : ∀ k id w, w.Sound registry sources →
      (∀ n, need n → ∃ d, d ∈ stage registry sources n k id) →
      Verdict registry sources stack k id w (builder k id w))
    (hsound : w.Sound registry sources)
    (hneed : ∀ n, need n → ∃ t, r.Met sources package (stage registry sources n) t) :
    Upshot registry sources need (r.Met sources package (grounded registry sources)) w
      (r.resolve sources package builder w).1 (r.resolve sources package builder w).2 := by
  rcases r.lead_or_objective with ⟨l, hlead⟩ | ⟨raw, rfl⟩
  · exact Reference.resolve_lead_upshot hlead hbuilder hsound hneed
  · -- An objective is looked up and not built.
    show Upshot registry sources need _ w (sources.locate raw .objective package) w
    refine ⟨hsound, .refl w, fun t ht => .declared ht, fun e he n hn => ?_⟩
    obtain ⟨t, hmet⟩ := hneed n hn
    cases hmet with
    | found hlead => cases hlead
    | declared hlocate => cases hlocate.symm.trans he

/-- A plan that is carried out by a builder whose verdicts are right. -/
theorem Plan.run_upshot {σ α : Type} {plan : Plan σ α}
    (hbuilder : ∀ k id w, w.Sound registry sources →
      (∀ n, need n → ∃ d, d ∈ stage registry sources n k id) →
      Verdict registry sources stack k id w (builder k id w))
    (hsound : w.Sound registry sources)
    (hneed : ∀ n, need n → ∃ a, plan.Succeeds sources package (stage registry sources n) a) :
    Upshot registry sources need (plan.Succeeds sources package (grounded registry sources)) w
      (plan.run sources package builder w).1 (plan.run sources package builder w).2.2 := by
  induction plan generalizing w with
  | done a s =>
    refine ⟨hsound, .refl w, fun b hb => ?_, nofun⟩
    cases hb
    rfl
  | fail err s =>
    refine .failed hsound fun n hn => ?_
    obtain ⟨a, ha⟩ := hneed n hn
    exact ha
  | refer r s next ih =>
    have hresolved := Reference.resolve_upshot hbuilder hsound fun n hn => by
      obtain ⟨a, t, hmet, -⟩ := hneed n hn
      exact ⟨t, hmet⟩
    rcases hresult : r.resolve sources package builder w with ⟨err | t, w'⟩
    · rw [hresult] at hresolved
      have hrun : (Plan.refer r s next).run sources package builder w =
          (.error (.notFound err), s, w') := by rw [Plan.run, hresult]
      rw [hrun]
      exact ⟨hresolved.sound, hresolved.grows, nofun, fun _ _ => hresolved.error err rfl⟩
    · rw [hresult] at hresolved
      have hrun : (Plan.refer r s next).run sources package builder w =
          (next t).run sources package builder w' := by rw [Plan.run, hresult]
      rw [hrun]
      have hmet : r.Met sources package (grounded registry sources) t := hresolved.ok t rfl
      -- At no stage can the reference be answered in another way, so the plan goes on as it would.
      have hneed' : ∀ n, need n →
          ∃ a, (next t).Succeeds sources package (stage registry sources n) a := by
        intro n hn
        obtain ⟨a, t', hmet', ha⟩ := hneed n hn
        obtain rfl := (hmet'.mono (stage_le_grounded n)).unique hmet fun _ _ _ h _ h' =>
          grounded_unique h h'
        exact ⟨a, ha⟩
      have hrest := ih t hresolved.sound hneed'
      exact ⟨hrest.sound, hresolved.grows.trans hrest.grows,
        fun a ha => ⟨t, hmet, hrest.ok a ha⟩, hrest.error⟩

end

/-! ### The search -/

/-- A definition on the stack waits for what a definition above it refers to. -/
theorem Waits.cons {stack : List (Kind × ObjectId)} {k k' : Kind} {id id' : ObjectId}
    (h : Waits registry sources stack k id)
    (hneed : ∀ n, (∃ d, d ∈ stage registry sources (n + 1) k id) →
      ∃ d, d ∈ stage registry sources n k' id') :
    Waits registry sources ((k, id) :: stack) k' id' := by
  have hstep : ∀ n, (∃ d, d ∈ stage registry sources n k id) →
      ∃ m, m < n ∧ ∃ d, d ∈ stage registry sources m k' id' := by
    intro n hn
    cases n with
    | zero =>
      obtain ⟨d, hd⟩ := hn
      exact hd.elim
    | succ n => exact ⟨n, n.lt_succ_self, hneed n hn⟩
  intro x hx n hn
  rcases List.mem_cons.1 hx with rfl | hx
  · exact hstep n hn
  · obtain ⟨m, hm, hstage⟩ := h x hx n hn
    obtain ⟨m', hm', hstage'⟩ := hstep m hstage
    exact ⟨m', hm'.trans hm, hstage'⟩

/-- A definition that waits for itself is not grounded. -/
theorem Waits.not_grounded {stack : List (Kind × ObjectId)} {k : Kind} {id : ObjectId}
    (h : Waits registry sources stack k id) (hmem : (k, id) ∈ stack) (d : k.Def) :
    d ∉ grounded registry sources k id :=
  not_grounded_of_earlier (fun n hn => h (k, id) hmem n hn) d

/-- What the plan of a definition comes to, carried out with the definition on the stack. -/
theorem run_blueprint {stack : List (Kind × ObjectId)} {k : Kind} {id : ObjectId} {w : Workshop}
    {line : Option String} {plan : Plan Unit k.Def} {deeper : Builder}
    (hblueprint : blueprint? registry sources k id = some (line, plan))
    (hdeeper : ∀ k' id' w', w'.Sound registry sources →
      Waits registry sources ((k, id) :: stack) k' id' →
      Verdict registry sources ((k, id) :: stack) k' id' w' (deeper k' id' w'))
    (hsound : w.Sound registry sources) (hwaits : Waits registry sources stack k id) :
    (plan.run sources id.package deeper w).2.2.Sound registry sources ∧
    w.Grows (plan.run sources id.package deeper w).2.2 ∧
    (∀ d, (plan.run sources id.package deeper w).1 = .ok d → d ∈ grounded registry sources k id) ∧
    (∀ e, (plan.run sources id.package deeper w).1 = .error e →
      ∀ d, d ∉ grounded registry sources k id) := by
  have hneed : ∀ n, (∃ d, d ∈ stage registry sources (n + 1) k id) →
      ∃ d, plan.Succeeds sources id.package (stage registry sources n) d := by
    intro n hn
    obtain ⟨d, line', plan', hblueprint', hsucceeds⟩ := hn
    rw [hblueprint] at hblueprint'
    cases hblueprint'
    exact ⟨d, hsucceeds⟩
  have hrun := Plan.run_upshot (fun k' id' w' hw hn => hdeeper k' id' w' hw (hwaits.cons hn))
    hsound hneed
  refine ⟨hrun.sound, hrun.grows, fun d hd => ?_, fun e he d hd => ?_⟩
  · exact mem_grounded_iff.2 ⟨line, plan, hblueprint, hrun.ok d hd⟩
  · obtain ⟨n, hn⟩ := mem_grounded_iff_stage.1 hd
    cases n with
    | zero => exact hn.elim
    | succ n => exact hrun.error e he n ⟨d, hn⟩

/-- The verdict of the search on a definition is right. -/
theorem build_verdict {stack : List (Kind × ObjectId)} {k : Kind} {id : ObjectId} {w : Workshop}
    (hsound : w.Sound registry sources) (hwaits : Waits registry sources stack k id) :
    Verdict registry sources stack k id w (build registry sources stack k id w) := by
  fun_induction build registry sources stack k id w with
  | case1 stack k id w d hfind =>
    refine ⟨hsound, .refl w, fun d' hd => ?_, nofun⟩
    cases hd
    exact ⟨hsound.built k id d hfind, hfind⟩
  | case2 stack k id w hfind hbroken =>
    have hmem : (k, id) ∈ w.broken := by simpa using hbroken
    exact ⟨hsound, .refl w, nofun, fun _ _ => ⟨(hsound.broken k id hmem).2, fun _ _ => hmem⟩⟩
  | case3 stack k id w hfind hbroken hstack =>
    -- The definition is met on the stack again, so it waits for itself.
    exact ⟨hsound, .refl w, nofun,
      fun _ _ => ⟨hwaits.not_grounded hstack, fun _ hfree => absurd hstack hfree⟩⟩
  | case4 stack k id w hfind hbroken hstack hblueprint =>
    refine ⟨hsound, .refl w, nofun, fun _ _ => ⟨fun d hd => ?_, fun hdeclared _ => ?_⟩⟩
    · obtain ⟨line, plan, hblueprint', -⟩ := mem_grounded_iff.1 hd
      rw [hblueprint] at hblueprint'
      cases hblueprint'
    · obtain ⟨b, hb⟩ := blueprint?_of_mem_declared registry hdeclared
      rw [hblueprint] at hb
      cases hb
  -- The plan is carried out with the definition on the stack, and keeps or condemns it.
  | case5 stack k id w hfind hbroken hstack line plan hblueprint deeper d s w' hrun ih =>
    obtain ⟨hsound', hgrows, hok, -⟩ :=
      run_blueprint hblueprint (fun k' id' w' => ih k' id' w') hsound hwaits
    rw [hrun] at hsound' hgrows hok
    have hd : d ∈ grounded registry sources k id := hok d rfl
    obtain ⟨hkept, hgrows'⟩ := hsound'.keep hd
    refine ⟨hkept, hgrows.trans hgrows', fun d' hd' => ?_, nofun⟩
    cases hd'
    exact ⟨hd, w'.built.find?_add_self k id d⟩
  | case6 stack k id w hfind hbroken hstack line plan hblueprint deeper e s w' hrun ih =>
    obtain ⟨hsound', hgrows, -, herror⟩ :=
      run_blueprint hblueprint (fun k' id' w' => ih k' id' w') hsound hwaits
    rw [hrun] at hsound' hgrows herror
    have hdeclared : (k, id) ∈ sources.declared := mem_declared_of_blueprint? hblueprint
    have hnot : ∀ d, d ∉ grounded registry sources k id := herror e rfl
    obtain ⟨hrecorded, hgrows'⟩ := hsound'.record hdeclared hnot line e
    exact ⟨hrecorded, hgrows.trans hgrows', nofun,
      fun _ _ => ⟨hnot, fun _ _ => List.mem_cons_self⟩⟩

/-! ### A whole run -/

/-- With nothing on the stack, nothing waits. -/
theorem Waits.nil (k : Kind) (id : ObjectId) : Waits registry sources [] k id :=
  fun _ hx => absurd hx List.not_mem_nil

/-- Building along a list keeps the workshop right, and settles every declared definition of the
list: it is built, or it is condemned. -/
theorem buildAlong_verdict (order : List (Kind × ObjectId)) {w : Workshop}
    (hsound : w.Sound registry sources) :
    (buildAlong registry sources order w).Sound registry sources ∧
    w.Grows (buildAlong registry sources order w) ∧
    ∀ k id, (k, id) ∈ order → (k, id) ∈ sources.declared →
      (∃ d, (buildAlong registry sources order w).built.find? k id = some d) ∨
        (k, id) ∈ (buildAlong registry sources order w).broken := by
  induction order generalizing w with
  | nil => exact ⟨hsound, .refl w, nofun⟩
  | cons x rest ih =>
    have hverdict : Verdict registry sources [] x.1 x.2 w (build registry sources [] x.1 x.2 w) :=
      build_verdict hsound (Waits.nil x.1 x.2)
    obtain ⟨hsound', hgrows, hsettled⟩ := ih hverdict.sound
    refine ⟨hsound', hverdict.grows.trans hgrows, fun k id hmem hdeclared => ?_⟩
    rcases List.mem_cons.1 hmem with rfl | hmem
    · -- What was settled by this visit is not lost by the later ones.
      cases hresult : (build registry sources [] k id w).1 with
      | ok d =>
        have hfind := (hverdict.ok d hresult).2
        exact .inl ⟨d, hgrows.built k id d hfind⟩
      | error e =>
        have hbroken := (hverdict.error e hresult).2 hdeclared List.not_mem_nil
        exact .inr (hgrows.broken (k, id) hbroken)
    · exact hsettled k id hmem hdeclared

/-- A grounded definition is declared. -/
theorem mem_declared_of_grounded {k : Kind} {id : ObjectId} {d : k.Def}
    (h : d ∈ grounded registry sources k id) : (k, id) ∈ sources.declared := by
  obtain ⟨line, plan, hblueprint, -⟩ := mem_grounded_iff.1 h
  exact mem_declared_of_blueprint? hblueprint

section

variable {order : List (Kind × ObjectId)} (hcover : sources.declared ⊆ order)

include hcover

/-- In whatever order the declared definitions are visited, the grounded ones are built. -/
theorem buildAlong_find? {k : Kind} {id : ObjectId} {d : k.Def} :
    (buildAlong registry sources order Workshop.empty).built.find? k id = some d ↔
      d ∈ grounded registry sources k id := by
  obtain ⟨hsound, -, hsettled⟩ := buildAlong_verdict order
    (Workshop.sound_empty registry sources)
  refine ⟨hsound.built k id d, fun hd => ?_⟩
  have hdeclared : (k, id) ∈ sources.declared := mem_declared_of_grounded hd
  rcases hsettled k id (hcover hdeclared) hdeclared with ⟨d', hd'⟩ | hbroken
  · rw [hd', grounded_unique (hsound.built k id d' hd') hd]
  · exact absurd hd ((hsound.broken k id hbroken).2 d)

/-- In whatever order the declared definitions are visited, the others are condemned. -/
theorem mem_buildAlong_broken {k : Kind} {id : ObjectId} :
    (k, id) ∈ (buildAlong registry sources order Workshop.empty).broken ↔
      (k, id) ∈ sources.declared ∧ ∀ d, d ∉ grounded registry sources k id := by
  obtain ⟨hsound, -, hsettled⟩ := buildAlong_verdict order
    (Workshop.sound_empty registry sources)
  refine ⟨hsound.broken k id, fun h => ?_⟩
  obtain ⟨hdeclared, hnot⟩ := h
  rcases hsettled k id (hcover hdeclared) hdeclared with ⟨d, hd⟩ | hbroken
  · exact absurd (hsound.built k id d hd) (hnot d)
  · exact hbroken

end

/-- The order of compiling visits each declared definition. -/
theorem declared_subset_schedule (sources : Sources) : sources.declared ⊆ schedule sources := by
  rintro ⟨k, id⟩ hmem
  obtain ⟨p, hp, hname⟩ := Sources.mem_declared_iff.1 hmem
  have hpackage : id.package ∈ sources.names := List.mem_mergeSort.2 (Table.mem_keys_of_find? hp)
  refine List.mem_flatMap.2 ⟨id.package, hpackage, ?_⟩
  rw [hp]
  refine List.mem_flatMap.2 ⟨k, by cases k <;> simp, ?_⟩
  exact List.mem_map.2 ⟨id.name, List.mem_mergeSort.2 hname, rfl⟩

end Questbook
