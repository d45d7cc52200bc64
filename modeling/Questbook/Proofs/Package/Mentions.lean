/-
Questbook/Proofs/Package/Mentions.lean

The references that are written in a definition.

What a plan asks for next could depend on the answers so far.  That of a definition of the built-in
keywords does not: which references it makes, and in which order, is in what it reads
(`Plan.Makes`), so that one may speak of the references of a definition even where they lead to
nothing (`Mentions`).  They lead to definitions of the same kind or of a lower one: conditions ask
for variables and items, events for conditions, and objectives and conversations for events.

Main results: `Vocabulary.orderly`, which the other modules on cycles start from, and
`not_grounded_of_mentions_cycle`: what can be reached from itself cannot be built.
-/
import Questbook.Proofs.Package.Compile

namespace Questbook

/-! ### The references of a plan -/

/-- How far a kind is above those whose definitions ask for no others. -/
def Kind.level : Kind → Nat
  | .var => 0
  | .item => 0
  | .condition => 1
  | .event => 2
  | .objective => 3
  | .conversation => 3

/-- A reference leads to the same kind, if it leads to a definition, or to a lower one. -/
def Reference.Below (k : Kind) (r : Reference) : Prop :=
  ∀ l, r.lead? = some l → l.kind = k ∨ l.kind.level < k.level

/-- Whatever the answers, a plan makes the references of a list one after the other, and then it
leaves something or fails, but not as if a reference had failed. -/
def Plan.Makes {σ α : Type} (out : Option σ) : Plan σ α → List Reference → Prop
  | done _ s, refs => refs = [] ∧ out = some s
  | fail e _, refs => refs = [] ∧ out = none ∧ ∀ n, e ≠ .notFound n
  | refer r _ next, refs => ∃ rest, refs = r :: rest ∧ ∀ t, (next t).Makes out rest

/-- A definition of one of the kinds makes references to it or to lower ones, and which they are is
written in it. -/
def Registry.Orderly (registry : Registry) : Prop :=
  ∀ sources k id line plan, blueprint? registry sources k id = some (line, plan) →
    ∃ refs out, (∀ r ∈ refs, r.Below k) ∧ plan.Makes out refs

namespace Plan

variable {σ α β : Type} {s : σ} {out out' : Option σ} {refs refs' : List Reference}

theorem Makes.bind {plan : Plan σ α} {f : α → σ → Plan σ β} (h : plan.Makes (some s) refs)
    (hf : ∀ a, (f a s).Makes out' refs') : (plan.bind f).Makes out' (refs ++ refs') := by
  induction plan generalizing refs with
  | done a x =>
    obtain ⟨rfl, hs⟩ := h
    cases hs
    exact hf a
  | fail e x => cases h.2.1
  | refer r x next ih =>
    obtain ⟨rest, rfl, hnext⟩ := h
    exact ⟨rest ++ refs', rfl, fun t => ih t (hnext t)⟩

theorem Makes.bind_of_fails {plan : Plan σ α} {f : α → σ → Plan σ β} (h : plan.Makes none refs) :
    (plan.bind f).Makes none refs := by
  induction plan generalizing refs with
  | done a x => cases h.2
  | fail e x => exact h
  | refer r x next ih =>
    obtain ⟨rest, rfl, hnext⟩ := h
    exact ⟨rest, rfl, fun t => ih t (hnext t)⟩

theorem Makes.forget {plan : Plan σ α} (h : plan.Makes out refs) :
    plan.forget.Makes (out.map fun _ => ()) refs := by
  induction plan generalizing refs with
  | done a x =>
    obtain ⟨rfl, rfl⟩ := h
    exact ⟨rfl, rfl⟩
  | fail e x =>
    obtain ⟨rfl, rfl, he⟩ := h
    exact ⟨rfl, rfl, he⟩
  | refer r x next ih =>
    obtain ⟨rest, rfl, hnext⟩ := h
    exact ⟨rest, rfl, fun t => ih t (hnext t)⟩

variable {sources : Sources} {package : String} {S : Stock} {x : Kind × ObjectId}

/-- What a plan asks for is what one of its references leads to. -/
theorem Makes.exists_of_asks {plan : Plan σ α} (h : plan.Makes out refs)
    (hasks : plan.Asks sources package S x) : ∃ r ∈ refs, r.LeadsTo sources package x := by
  induction plan generalizing refs with
  | done a y => exact hasks.elim
  | fail e y => exact hasks.elim
  | refer r y next ih =>
    obtain ⟨rest, rfl, hnext⟩ := h
    rcases hasks with hleads | ⟨t, -, hasks⟩
    · exact ⟨r, List.mem_cons_self, hleads⟩
    · obtain ⟨r', hr', hleads⟩ := ih t (hnext t) hasks
      exact ⟨r', List.mem_cons_of_mem _ hr', hleads⟩

/-- A plan that succeeds has asked for whatever its references lead to. -/
theorem Makes.asks_of_succeeds {plan : Plan σ α} {a : α} (h : plan.Makes out refs)
    (hsucceeds : plan.Succeeds sources package S a) {r : Reference} (hr : r ∈ refs)
    (hleads : r.LeadsTo sources package x) : plan.Asks sources package S x := by
  induction plan generalizing refs with
  | done b y =>
    obtain ⟨rfl, -⟩ := h
    cases hr
  | fail e y => exact hsucceeds.elim
  | refer r' y next ih =>
    obtain ⟨rest, rfl, hnext⟩ := h
    obtain ⟨t, hmet, hsucceeds⟩ := hsucceeds
    rcases List.mem_cons.1 hr with rfl | hr
    · exact .inl hleads
    · exact .inr ⟨t, hmet, ih t (hnext t) hsucceeds hr⟩

end Plan

namespace Reference

variable {k : Kind}

theorem below_condition (hk : k = .condition ∨ 1 < k.level) (raw : String) :
    Below k (.condition raw) := by
  rintro l ⟨⟩
  exact hk.imp_left Eq.symm

theorem below_event (hk : k = .event ∨ 2 < k.level) (raw : String) :
    Below k (.event raw) := by
  rintro l ⟨⟩
  exact hk.imp_left Eq.symm

theorem below_var (hk : 0 < k.level) (raw : String) : Below k (.var raw) := by
  rintro l ⟨⟩
  exact .inr hk

theorem below_item (hk : 0 < k.level) (raw : String) : Below k (.item raw) := by
  rintro l ⟨⟩
  exact .inr hk

theorem below_objective (raw : String) : Below k (.objective raw) := nofun

end Reference

/-! ### Drafts -/

namespace Draft

variable {ι σ α β γ : Type} {P : Reference → Prop}

/-- Drafts that make the same references, all of which satisfy `P`, and then leave the same. -/
def Steady (P : Reference → Prop) (d : ι → Draft σ α) : Prop :=
  ∀ x, ∃ refs out, (∀ r ∈ refs, P r) ∧ ∀ i, (d i x).Makes out refs

theorem steady_pure (a : ι → α) : Steady P fun i => (pure (a i) : Draft σ α) :=
  fun x => ⟨[], some x, nofun, fun _ => ⟨rfl, rfl⟩⟩

/-- One draft after another, where what the first one answers is not seen in the references of the
second. -/
theorem steady_bind {d : ι → Draft σ α} {f : ι → α → Draft σ β} (hd : Steady P d)
    (hf : Steady P fun p : ι × α => f p.1 p.2) : Steady P fun i => d i >>= f i := by
  intro x
  obtain ⟨refs, out, hrefs, hmakes⟩ := hd x
  cases out with
  | none => exact ⟨refs, none, hrefs, fun i => (hmakes i).bind_of_fails⟩
  | some s =>
    obtain ⟨refs', out', hrefs', hmakes'⟩ := hf s
    refine ⟨refs ++ refs', out', fun r hr => ?_, fun i => (hmakes i).bind fun a => hmakes' (i, a)⟩
    exact (List.mem_append.1 hr).elim (hrefs r) (hrefs' r)

theorem steady_map {d : ι → Draft σ α} {f : ι → α → β} (hd : Steady P d) :
    Steady P fun i => f i <$> d i :=
  steady_bind hd (steady_pure fun p => f p.1 p.2)

theorem steady_fail {e : BuildError} (h : ∀ n, e ≠ .notFound n) :
    Steady P fun _ : ι => (fail e : Draft σ α) :=
  fun _ => ⟨[], none, nofun, fun _ => ⟨rfl, rfl, h⟩⟩

theorem steady_refer {r : Reference} (h : P r) :
    Steady P fun _ : ι => (refer r : Draft σ r.Target) :=
  fun x => ⟨[r], some x, List.forall_mem_singleton.2 h,
    fun _ => ⟨[], rfl, fun _ => ⟨rfl, rfl⟩⟩⟩

theorem read_of_ok {r : Line.Reader α} {l l' : Line} {a : α} (h : l.read r = (.ok a, l')) :
    read r l = .done a l' := by
  simp only [read, h]

theorem read_of_error {r : Line.Reader α} {l l' : Line} {e : LineError}
    (h : l.read r = (.error e, l')) : read r l = .fail (.parse e) l' := by
  simp only [read, h]

/-- What is read may decide on the references. -/
theorem steady_read_bind {r : Line.Reader α} {f : ι → α → LineDraft β}
    (hf : ∀ a, Steady P fun i => f i a) : Steady P fun i => read r >>= f i := by
  intro l
  rcases hread : l.read r with ⟨e | a, l'⟩
  · refine ⟨[], none, nofun, fun i => ?_⟩
    show Plan.Makes none ((read r l).bind (f i)) []
    rw [read_of_error hread]
    exact ⟨rfl, rfl, nofun⟩
  · obtain ⟨refs, out, hrefs, hmakes⟩ := hf a l'
    refine ⟨refs, out, hrefs, fun i => ?_⟩
    show Plan.Makes out ((read r l).bind (f i)) refs
    rw [read_of_ok hread]
    exact hmakes i

theorem steady_read (r : Line.Reader α) : Steady P fun _ : ι => read r := by
  intro l
  rcases hread : l.read r with ⟨e | a, l'⟩
  · refine ⟨[], none, nofun, fun _ => ?_⟩
    show Plan.Makes none (read r l) []
    rw [read_of_error hread]
    exact ⟨rfl, rfl, nofun⟩
  · refine ⟨[], some l', nofun, fun _ => ?_⟩
    show Plan.Makes (some l') (read r l) []
    rw [read_of_ok hread]
    exact ⟨rfl, rfl⟩

theorem steady_each {f : γ → Draft σ α} {cs : List γ}
    (hf : ∀ c ∈ cs, Steady P fun _ : Unit => f c) : Steady P fun _ : ι => each f cs := by
  have hconst : ∀ {κ : Type} {c : γ}, c ∈ cs → Steady P fun _ : κ => f c := by
    intro κ c hc x
    obtain ⟨refs, out, hrefs, hmakes⟩ := hf c hc x
    exact ⟨refs, out, hrefs, fun _ => hmakes ()⟩
  clear hf
  induction cs generalizing ι with
  | nil => exact steady_pure fun _ => []
  | cons c rest ih =>
    refine steady_bind (hconst List.mem_cons_self) (steady_bind (ih fun hc => ?_) (steady_pure _))
    exact hconst (List.mem_cons_of_mem _ hc)

theorem steady_byKeyword {k : Kind} {drafts : List (String × LineDraft α)}
    (h : ∀ e ∈ drafts, Steady P fun _ : ι => e.2) :
    Steady P fun _ : ι => Registry.byKeyword k (.ofList drafts) := by
  intro l
  cases hdraft : (Table.ofList drafts).find? l.keyword with
  | none =>
    refine ⟨[], none, by simp, fun _ => ?_⟩
    show Plan.Makes none (Registry.byKeyword k (.ofList drafts) l) []
    simp only [Registry.byKeyword, hdraft]
    exact ⟨rfl, rfl, by simp⟩
  | some draft =>
    obtain ⟨refs, out, hrefs, hmakes⟩ := h _ (Table.mem_of_find?_ofList hdraft) l
    refine ⟨refs, out, hrefs, fun i => ?_⟩
    show Plan.Makes out (Registry.byKeyword k (.ofList drafts) l) refs
    simp only [Registry.byKeyword, hdraft]
    exact hmakes i

theorem steady_known {k : Kind} {drafts : Table String (LineDraft α)} :
    Steady P fun _ : ι => Registry.known k drafts := by
  intro l
  cases hcontains : drafts.contains l.keyword with
  | false =>
    refine ⟨[], none, by simp, fun _ => ?_⟩
    show Plan.Makes none (Registry.known k drafts l) []
    simp only [Registry.known, hcontains]
    exact ⟨rfl, rfl, by simp⟩
  | true =>
    refine ⟨[], some l, by simp, fun _ => ?_⟩
    show Plan.Makes (some l) (Registry.known k drafts l) []
    simp only [Registry.known, hcontains]
    exact ⟨rfl, rfl⟩

theorem steady_given {present : Bool} {feature : String} {draft : LineDraft α}
    (h : Steady P fun _ : ι => draft) :
    Steady P fun _ : ι => Vocabulary.given present feature draft := by
  unfold Vocabulary.given
  split
  · exact h
  · exact steady_fail nofun

section

variable (hvar : ∀ raw, P (.var raw)) (hitem : ∀ raw, P (.item raw))

include hvar in
theorem steady_richText (raw : String) :
    Steady P fun _ : ι => (richText raw : Draft σ RichText) := by
  refine steady_each fun segment _ => ?_
  cases segment with
  | literal text => exact steady_pure fun _ => _
  | reference name => exact steady_map (steady_refer (hvar name))

include hvar in
theorem steady_nextQuantity : Steady P fun _ : ι => nextQuantity := by
  refine steady_read_bind fun token => ?_
  split
  · exact steady_map (steady_refer (hvar _))
  · split
    · exact steady_pure fun _ => _
    · exact steady_read _

include hitem in
theorem steady_nextStacks : Steady P fun _ : ι => nextStacks := by
  refine steady_read_bind fun entries => ?_
  split
  · exact steady_read _
  · refine steady_each fun entry _ => ?_
    unfold stack
    split
    · exact steady_map (steady_refer (hitem _))
    · split
      · exact steady_map (steady_refer (hitem _))
      · exact steady_read _

end

theorem steady_conditions (hcondition : ∀ raw, P (.condition raw)) (raws : List String) :
    Steady P fun _ : ι => (each condition raws : Draft σ (List ConditionRef)) :=
  steady_each fun raw _ => steady_refer (hcondition raw)

theorem steady_events (hevent : ∀ raw, P (.event raw)) (raws : List String) :
    Steady P fun _ : ι => (each event raws : Draft σ (List EventRef)) :=
  steady_each fun raw _ => steady_refer (hevent raw)

theorem steady_gate (hcondition : ∀ raw, P (.condition raw)) :
    Steady P fun _ : ι => Registry.gate :=
  steady_read_bind fun raws => steady_conditions hcondition raws

end Draft

/-! ### The built-in keywords -/

namespace Vocabulary

open Draft

variable {ι : Type} {i : Integrations}

theorem steady_condition :
    Steady (Reference.Below .condition) fun _ : ι => (registry i).condition := by
  refine steady_byKeyword ?_
  simp only [List.forall_mem_cons]
  refine ⟨?_, ?_, ?_, ?_, ?_, ?_, ?_, ?_, ?_, nofun⟩
  · exact steady_pure fun _ => _
  · exact steady_map (steady_read _)
  · exact steady_read_bind fun raws =>
      steady_map (steady_conditions (Reference.below_condition (.inl rfl)) raws)
  · exact steady_read_bind fun raws =>
      steady_map (steady_conditions (Reference.below_condition (.inl rfl)) raws)
  · exact steady_map (steady_nextStacks (Reference.below_item (by decide)))
  · exact steady_read_bind fun raw => steady_map (steady_refer (Reference.below_objective raw))
  · exact steady_map (steady_nextQuantity (Reference.below_var (by decide)))
  · exact steady_given (steady_read_bind fun name => steady_read_bind fun level =>
      steady_read_bind fun exactly => steady_pure fun _ => _)
  · exact steady_given (steady_map (steady_nextQuantity (Reference.below_var (by decide))))

theorem steady_action : Steady (Reference.Below .event) fun _ : ι =>
    Registry.byKeyword .event (registry i).events := by
  refine steady_byKeyword ?_
  simp only [List.forall_mem_cons]
  refine ⟨?_, ?_, ?_, ?_, ?_, ?_, ?_, nofun⟩
  · exact steady_read_bind fun spot => steady_read_bind fun switch => steady_pure fun _ => _
  · exact steady_read_bind fun ticks => steady_read_bind fun raws =>
      steady_map (steady_events (Reference.below_event (.inl rfl)) raws)
  · exact steady_read_bind fun action => steady_read_bind fun raw =>
      steady_map (steady_refer (Reference.below_objective raw))
  · exact steady_read_bind fun place => steady_read_bind fun message =>
      steady_map (steady_richText (Reference.below_var (by decide)) message)
  · exact steady_map (steady_nextStacks (Reference.below_item (by decide)))
  · exact steady_map (steady_nextStacks (Reference.below_item (by decide)))
  · exact steady_given (steady_map (steady_nextQuantity (Reference.below_var (by decide))))

theorem steady_event : Steady (Reference.Below .event) fun _ : ι => (registry i).event := by
  refine steady_bind steady_known ?_
  refine steady_bind (steady_gate (Reference.below_condition (.inr (by decide)))) ?_
  exact steady_bind steady_action (steady_pure _)

theorem steady_goal : Steady (Reference.Below .objective) fun _ : ι =>
    Registry.byKeyword .objective (registry i).goals := by
  refine steady_byKeyword ?_
  simp only [List.forall_mem_cons]
  refine ⟨?_, ?_, ?_, nofun⟩
  · exact steady_read_bind fun target =>
      steady_map (steady_nextQuantity (Reference.below_var (by decide)))
  · exact steady_read_bind fun target =>
      steady_map (steady_nextQuantity (Reference.below_var (by decide)))
  · refine steady_read_bind fun entities => ?_
    split
    · exact steady_fail nofun
    · exact steady_read_bind fun amount => steady_pure fun _ => _

theorem steady_objective (id : ObjectId) :
    Steady (Reference.Below .objective) fun _ : ι => (registry i).objective id := by
  refine steady_bind steady_known ?_
  refine steady_bind (steady_gate (Reference.below_condition (.inr (by decide)))) ?_
  refine steady_read_bind fun raws => ?_
  refine steady_bind (steady_events (Reference.below_event (.inr (by decide))) raws) ?_
  exact steady_bind steady_goal (steady_pure _)

theorem steady_var : Steady (Reference.Below .var) fun _ : ι => (registry i).var := by
  refine steady_byKeyword ?_
  simp only [List.forall_mem_cons]
  refine ⟨steady_given ?_, ?_, ?_, ?_, nofun⟩
  · refine steady_read_bind fun token => ?_
    split
    · exact steady_pure fun _ => _
    · split
      · exact steady_pure fun _ => _
      · exact steady_read _
  · refine steady_read_bind fun raw => steady_bind (steady_refer (Reference.below_objective raw)) ?_
    exact steady_map (steady_read _)
  · exact steady_map (steady_read _)
  · refine steady_read_bind fun bare => ?_
    split
    · exact steady_pure fun _ => _
    · exact steady_map (steady_read _)

theorem steady_item : Steady (Reference.Below .item) fun _ : ι => Registry.item :=
  steady_read_bind fun _ => steady_read_bind fun _ => steady_pure fun _ => _

theorem steady_options (t : Table String OptionSource) : Steady (Reference.Below .conversation)
    fun _ : ι => ConversationSource.options t := by
  refine steady_bind (steady_each fun e _ => steady_map ?_) (steady_pure _)
  refine steady_bind (steady_richText (Reference.below_var (by decide)) _) ?_
  refine steady_bind (steady_conditions (Reference.below_condition (.inr (by decide))) _) ?_
  exact steady_bind (steady_events (Reference.below_event (.inr (by decide))) _) (steady_pure _)

theorem steady_draft (registry : Registry) (id : ObjectId) (c : ConversationSource) :
    Steady (Reference.Below .conversation) fun _ : ι => c.draft registry id := by
  unfold ConversationSource.draft
  split
  · exact steady_fail nofun
  · refine steady_bind (steady_options _) (steady_bind (steady_options _) ?_)
    refine steady_bind (steady_richText (Reference.below_var (by decide)) _) ?_
    exact steady_bind (steady_events (Reference.below_event (.inr (by decide))) _) (steady_pure _)

theorem linePlan_makes {α : Type} {P : Reference → Prop} {draft : LineDraft α}
    (h : Steady P fun _ : Unit => draft) (id : ObjectId) (line : String) :
    ∃ refs out, (∀ r ∈ refs, P r) ∧ (linePlan id line draft).Makes out refs := by
  unfold linePlan
  split
  · rename_i l _
    obtain ⟨refs, out, hrefs, hmakes⟩ := h l
    exact ⟨refs, _, hrefs, (hmakes ()).forget⟩
  · exact ⟨[], none, nofun, rfl, rfl, nofun⟩

/-- The references of a definition of the built-in keywords are written in it. -/
theorem orderly (i : Integrations) : (registry i).Orderly := by
  intro sources k id line plan hblueprint
  -- A conversation has a draft of its own; all else is built from a line.
  cases blueprint?_eq_some_iff.1 hblueprint with
  | @conversation _ c _ =>
    have hsteady : Steady (Reference.Below .conversation) fun _ : Unit =>
        c.draft (registry i) id := steady_draft (registry i) id c
    obtain ⟨refs, out, hrefs, hmakes⟩ := hsteady ()
    exact ⟨refs, out, hrefs, hmakes ()⟩
  | condition => exact linePlan_makes steady_condition id _
  | event => exact linePlan_makes steady_event id _
  | objective => exact linePlan_makes (steady_objective id) id _
  | var => exact linePlan_makes steady_var id _
  | item => exact linePlan_makes steady_item id _

end Vocabulary

/-! ### What is written -/

/-- One of the references of a definition leads to another definition, the ones before it being
answered by anything at all. -/
def Mentions (registry : Registry) (sources : Sources) (x y : Kind × ObjectId) : Prop :=
  ∃ line plan, blueprint? registry sources x.1 x.2 = some (line, plan) ∧
    plan.Asks sources x.2.package ⊤ y

/-- Nothing is wrong with a plan but what its references lead to: they all lead somewhere, and it
does not fail itself. -/
def Plan.Faultless {σ α : Type} (sources : Sources) (package : String) : Plan σ α → Prop
  | done _ _ => True
  | fail _ _ => False
  | refer r _ next => (∃ t, r.Met sources package ⊤ t) ∧
      ∀ t, r.Met sources package ⊤ t → (next t).Faultless sources package

/-- Each definition is well-formed, and each of its references leads to a declared definition. -/
def Sources.Faultless (registry : Registry) (sources : Sources) : Prop :=
  ∀ k id line plan, blueprint? registry sources k id = some (line, plan) →
    plan.Faultless sources id.package

variable {registry : Registry} {sources : Sources} {x y : Kind × ObjectId}

/-- References stay within a kind or go down. -/
theorem Refers.level (horderly : registry.Orderly) (h : Refers registry sources x y) :
    y.1 = x.1 ∨ y.1.level < x.1.level := by
  obtain ⟨line, plan, hblueprint, hasks⟩ := h
  obtain ⟨refs, out, hrefs, hmakes⟩ := horderly sources x.1 x.2 line plan hblueprint
  obtain ⟨r, hr, l, hlead, hkind, -⟩ := hmakes.exists_of_asks hasks
  exact hkind ▸ hrefs r hr l hlead

/-- What a definition refers to that can be built can be built as well. -/
theorem Refers.exists_grounded (h : Refers registry sources x y)
    (hx : ∃ d, d ∈ grounded registry sources x.1 x.2) :
    ∃ d, d ∈ grounded registry sources y.1 y.2 := by
  obtain ⟨d, hd⟩ := hx
  obtain ⟨n, hn⟩ := mem_grounded_iff_stage.1 hd
  obtain ⟨m, -, d', hd'⟩ := h.exists_stage ⟨d, hn⟩
  exact ⟨d', stage_le_grounded m _ _ hd'⟩

/-- A definition that can be built refers to all that it mentions. -/
theorem Mentions.refers (horderly : registry.Orderly) (h : Mentions registry sources x y)
    (hx : ∃ d, d ∈ grounded registry sources x.1 x.2) : Refers registry sources x y := by
  obtain ⟨line, plan, hblueprint, hasks⟩ := h
  obtain ⟨refs, out, -, hmakes⟩ := horderly sources x.1 x.2 line plan hblueprint
  obtain ⟨r, hr, hleads⟩ := hmakes.exists_of_asks hasks
  obtain ⟨d, line', plan', hblueprint', hsucceeds⟩ :=
    hx.imp fun d hd => mem_grounded_iff.1 hd
  rw [hblueprint] at hblueprint'
  cases hblueprint'
  exact ⟨line, plan, hblueprint, hmakes.asks_of_succeeds hsucceeds hr hleads⟩

/-- **A definition that reaches itself through what is written cannot be built.** -/
theorem not_grounded_of_mentions_cycle (horderly : registry.Orderly)
    (hcycle : Relation.TransGen (Mentions registry sources) x x) (d : x.1.Def) :
    d ∉ grounded registry sources x.1 x.2 := by
  intro hd
  -- Were it built, all that it reaches would be, and it would refer to itself in the end.
  have hreach : ∀ y, Relation.TransGen (Mentions registry sources) x y →
      Relation.TransGen (Refers registry sources) x y ∧
        ∃ d, d ∈ grounded registry sources y.1 y.2 := by
    intro y hy
    induction hy with
    | single hmentions =>
      have hrefers := hmentions.refers horderly ⟨d, hd⟩
      exact ⟨.single hrefers, hrefers.exists_grounded ⟨d, hd⟩⟩
    | tail _ hmentions ih =>
      have hrefers := hmentions.refers horderly ih.2
      exact ⟨ih.1.tail hrefers, hrefers.exists_grounded ih.2⟩
  exact not_grounded_of_cycle .refl (hreach x hcycle).1 d hd

/-! ### Computing them -/

/-- Some answer to a reference. -/
def Reference.anything : (r : Reference) → r.Target
  | condition _ => ⟨⟨"", ""⟩, false, .sneaking⟩
  | event _ => ⟨⟨"", ""⟩, ⟨[], .give []⟩⟩
  | var _ => ⟨⟨"", ""⟩, .balance⟩
  | item _ => ⟨"", none⟩
  | objective _ => ⟨"", ""⟩

/-- The definition that a reference leads to. -/
def Reference.place (package : String) : Reference → Kind × ObjectId
  | condition raw => (.condition, ObjectId.qualify (stripNegation raw).2 package)
  | event raw => (.event, ObjectId.qualify raw package)
  | var raw => (.var, ObjectId.qualify raw package)
  | item raw => (.item, ObjectId.qualify raw package)
  | objective raw => (.objective, ObjectId.qualify raw package)

/-- The references of a plan, and what it leaves, as it goes on with some answers. -/
def Plan.written {σ α : Type} : Plan σ α → List Reference × Option σ
  | done _ s => ([], some s)
  | fail _ _ => ([], none)
  | refer r _ next => (r :: (next r.anything).written.1, (next r.anything).written.2)

/-- Whether nothing is wrong with a plan but what its references lead to. -/
def Plan.isFaultless {σ α : Type} (sources : Sources) (package : String) (plan : Plan σ α) : Bool :=
  plan.written.2.isSome && plan.written.1.all fun r =>
    sources.declares (r.place package).1 (r.place package).2

/-- Whether nothing is wrong with any definition but what its references lead to. -/
def Sources.isFaultless (registry : Registry) (sources : Sources) : Bool :=
  sources.declared.all fun x =>
    match blueprint? registry sources x.1 x.2 with
    | some (_, plan) => plan.isFaultless sources x.2.package
    | none => true

/-- The definitions that a definition mentions. -/
def mentioned (registry : Registry) (sources : Sources) (x : Kind × ObjectId) :
    List (Kind × ObjectId) :=
  match blueprint? registry sources x.1 x.2 with
  | some (_, plan) => (plan.written.1.filter (·.lead?.isSome)).map (·.place x.2.package)
  | none => []

section

variable {package : String} {r : Reference}

theorem Reference.place_of_lead {l : Lead r.Target} (hlead : r.lead? = some l) :
    r.place package = (l.kind, ObjectId.qualify l.name package) := by
  cases r with
  | objective raw => cases hlead
  | _ =>
    cases hlead
    rfl

/-- There is something that a reference could lead to. -/
theorem Reference.exists_of_lead {l : Lead r.Target} (hlead : r.lead? = some l) :
    Nonempty l.kind.Def := by
  cases r with
  | objective raw => cases hlead
  | condition raw =>
    cases hlead
    exact ⟨Condition.sneaking⟩
  | event raw =>
    cases hlead
    exact ⟨⟨[], .give []⟩⟩
  | var raw =>
    cases hlead
    exact ⟨Variable.balance⟩
  | item raw =>
    cases hlead
    exact ⟨⟨"", none⟩⟩

theorem Reference.leadsTo_iff : r.LeadsTo sources package x ↔
    r.lead?.isSome = true ∧ r.place package = x ∧ sources.declares x.1 x.2 = true := by
  constructor
  · rintro ⟨l, hlead, hkind, hlocate⟩
    obtain ⟨hid, hdeclares⟩ := Sources.locate_eq_ok_iff.1 hlocate
    rw [place_of_lead hlead, hlead]
    exact ⟨rfl, Prod.ext hkind hid, hkind ▸ hdeclares⟩
  · rintro ⟨hsome, hplace, hdeclares⟩
    obtain ⟨l, hlead⟩ := Option.isSome_iff_exists.1 hsome
    rw [place_of_lead hlead] at hplace
    subst hplace
    exact ⟨l, hlead, rfl, Sources.locate_eq_ok_iff.2 ⟨rfl, hdeclares⟩⟩

theorem Reference.exists_met_iff : (∃ t, r.Met sources package ⊤ t) ↔
    sources.declares (r.place package).1 (r.place package).2 = true := by
  rcases r.lead_or_objective with ⟨l, hlead⟩ | ⟨raw, rfl⟩
  · rw [place_of_lead hlead]
    constructor
    · rintro ⟨t, hmet⟩
      obtain ⟨id, d, hlocate, -⟩ := (Reference.met_of_lead hlead).1 hmet
      obtain ⟨rfl, hdeclares⟩ := Sources.locate_eq_ok_iff.1 hlocate
      exact hdeclares
    · intro hdeclares
      obtain ⟨d⟩ := exists_of_lead hlead
      exact ⟨_, .found hlead (Sources.locate_eq_ok_iff.2 ⟨rfl, hdeclares⟩) (Set.mem_univ d)⟩
  · constructor
    · rintro ⟨t, hmet⟩
      cases hmet with
      | found hlead => cases hlead
      | declared hlocate =>
        obtain ⟨rfl, hdeclares⟩ := Sources.locate_eq_ok_iff.1 hlocate
        exact hdeclares
    · intro hdeclares
      exact ⟨_, .declared (Sources.locate_eq_ok_iff.2 ⟨rfl, hdeclares⟩)⟩

theorem Plan.Makes.written_eq {σ α : Type} {plan : Plan σ α} {out : Option σ}
    {refs : List Reference} (h : plan.Makes out refs) : plan.written = (refs, out) := by
  induction plan generalizing refs with
  | done a s =>
    obtain ⟨rfl, rfl⟩ := h
    rfl
  | fail e s =>
    obtain ⟨rfl, rfl, -⟩ := h
    rfl
  | refer r s next ih =>
    obtain ⟨rest, rfl, hnext⟩ := h
    rw [written, ih _ (hnext r.anything)]

/-- With a plan nothing is wrong if it does not fail itself and all of its references lead
somewhere. -/
theorem Plan.Makes.faultless_iff {σ α : Type} {plan : Plan σ α} {out : Option σ}
    {refs : List Reference} (h : plan.Makes out refs) : plan.Faultless sources package ↔
      out.isSome = true ∧
        ∀ r ∈ refs, sources.declares (r.place package).1 (r.place package).2 = true := by
  induction plan generalizing refs with
  | done a s =>
    obtain ⟨rfl, rfl⟩ := h
    exact ⟨fun _ => ⟨rfl, nofun⟩, fun _ => trivial⟩
  | fail e s =>
    obtain ⟨-, rfl, -⟩ := h
    exact ⟨False.elim, fun h => Bool.noConfusion h.1⟩
  | refer r s next ih =>
    obtain ⟨rest, rfl, hnext⟩ := h
    rw [List.forall_mem_cons, ← Reference.exists_met_iff]
    constructor
    · rintro ⟨⟨t, hmet⟩, hrest⟩
      obtain ⟨hout, hthere⟩ := (ih t (hnext t)).1 (hrest t hmet)
      exact ⟨hout, ⟨t, hmet⟩, hthere⟩
    · rintro ⟨hout, hmet, hthere⟩
      exact ⟨hmet, fun t _ => (ih t (hnext t)).2 ⟨hout, hthere⟩⟩

/-- A plan with nothing wrong about it asks for whatever its references lead to. -/
theorem Plan.Makes.asks_of_faultless {σ α : Type} {plan : Plan σ α} {out : Option σ}
    {refs : List Reference} (h : plan.Makes out refs) (hfaultless : plan.Faultless sources package)
    (hr : r ∈ refs) (hleads : r.LeadsTo sources package x) : plan.Asks sources package ⊤ x := by
  induction plan generalizing refs with
  | done a s =>
    obtain ⟨rfl, -⟩ := h
    cases hr
  | fail e s => exact hfaultless.elim
  | refer r' s next ih =>
    obtain ⟨rest, rfl, hnext⟩ := h
    obtain ⟨⟨t, hmet⟩, hrest⟩ := hfaultless
    rcases List.mem_cons.1 hr with rfl | hr
    · exact .inl hleads
    · exact .inr ⟨t, hmet, ih t (hnext t) (hrest t hmet) hr⟩

/-- The first definition that the references lead to is asked for in any case. -/
theorem Plan.Makes.asks_first {σ α : Type} {plan : Plan σ α} {out : Option σ}
    {refs : List Reference} {S : Stock} (h : plan.Makes out refs)
    (hfaultless : plan.Faultless sources package)
    (hx : ((refs.filter (·.lead?.isSome)).map (·.place package)).head? = some x) :
    plan.Asks sources package S x := by
  induction plan generalizing refs with
  | done a s =>
    obtain ⟨rfl, -⟩ := h
    cases hx
  | fail e s => exact hfaultless.elim
  | refer r s next ih =>
    have hdeclares := (h.faultless_iff.1 hfaultless).2
    obtain ⟨rest, rfl, hnext⟩ := h
    rcases r.lead_or_objective with ⟨l, hlead⟩ | ⟨raw, rfl⟩
    · have hsome : r.lead?.isSome = true := by rw [hlead]; rfl
      simp only [List.filter_cons, hsome, if_true, List.map_cons, List.head?_cons] at hx
      obtain rfl := Option.some.inj hx
      exact .inl (Reference.leadsTo_iff.2 ⟨hsome, rfl, hdeclares r List.mem_cons_self⟩)
    · -- An objective is only looked up, which needs nothing to be there.
      have hmet : ∀ S : Stock, (Reference.objective raw).Met sources package S
          (ObjectId.qualify raw package) := fun S =>
        .declared (Sources.locate_eq_ok_iff.2 ⟨rfl, hdeclares _ List.mem_cons_self⟩)
      exact .inr ⟨_, hmet S, ih _ (hnext _) (hfaultless.2 _ (hmet ⊤)) hx⟩

end

theorem Sources.faultless_of_isFaultless (horderly : registry.Orderly)
    (h : sources.isFaultless registry = true) : sources.Faultless registry := by
  intro k id line plan hblueprint
  obtain ⟨refs, out, -, hmakes⟩ := horderly sources k id line plan hblueprint
  have hplan := List.all_eq_true.1 h (k, id) (mem_declared_of_blueprint? hblueprint)
  simp only [hblueprint, Plan.isFaultless, hmakes.written_eq, Bool.and_eq_true,
    List.all_eq_true] at hplan
  exact hmakes.faultless_iff.2 hplan

/-- Where nothing else is wrong, what a definition mentions can be computed. -/
theorem mentions_iff (horderly : registry.Orderly) (hfaultless : sources.Faultless registry) :
    Mentions registry sources x y ↔ y ∈ mentioned registry sources x := by
  unfold mentioned
  constructor
  · rintro ⟨line, plan, hblueprint, hasks⟩
    obtain ⟨refs, out, -, hmakes⟩ := horderly sources x.1 x.2 line plan hblueprint
    obtain ⟨r, hr, hleads⟩ := hmakes.exists_of_asks hasks
    obtain ⟨hsome, hplace, -⟩ := Reference.leadsTo_iff.1 hleads
    rw [hblueprint]
    simp only [hmakes.written_eq]
    exact List.mem_map.2 ⟨r, List.mem_filter.2 ⟨hr, hsome⟩, hplace⟩
  · intro hy
    split at hy
    · rename_i line plan hblueprint
      obtain ⟨refs, out, -, hmakes⟩ := horderly sources x.1 x.2 line plan hblueprint
      have hplan := hfaultless _ _ _ _ hblueprint
      rw [hmakes.written_eq] at hy
      obtain ⟨r, hr, hplace⟩ := List.mem_map.1 hy
      obtain ⟨hr, hsome⟩ := List.mem_filter.1 hr
      refine ⟨line, plan, hblueprint, hmakes.asks_of_faultless hplan hr ?_⟩
      exact Reference.leadsTo_iff.2 ⟨hsome, hplace, hplace ▸ (hmakes.faultless_iff.1 hplan).2 r hr⟩
    · cases hy

/-- The first definition that is mentioned is referred to. -/
theorem refers_of_mentioned (horderly : registry.Orderly) (hfaultless : sources.Faultless registry)
    (h : (mentioned registry sources x).head? = some y) : Refers registry sources x y := by
  unfold mentioned at h
  split at h
  · rename_i line plan hblueprint
    obtain ⟨refs, out, -, hmakes⟩ := horderly sources x.1 x.2 line plan hblueprint
    rw [hmakes.written_eq] at h
    exact ⟨line, plan, hblueprint, hmakes.asks_first (hfaultless _ _ _ _ hblueprint) h⟩
  · cases h

end Questbook
