/-
Questbook/Proofs/Package/Vocabulary.lean

What the built-in keywords build.

Nothing that is written with the built-in keywords asks for more than to start, cancel or complete
objectives, its goals can read their own progress, and its conversations are closed graphs.  Such a
definition is called plain.  A draft builds plain definitions from plain ones, and what can be built
is the least that is closed under building, so that all of it is plain: `compile_plain`.
-/
import Questbook.Proofs.Engine.Goals
import Questbook.Proofs.Package.Compile

namespace Questbook

/-! ### Plain definitions -/

/-- What content of the built-in keywords asks for: changes of objectives, and luck. -/
def Demand.ofKeywords : Set Demand :=
  { d | d = .luck ∨ ∃ action id, d = .request (ObjectiveChange.request id action) }

/-- A conversation whose pointers all lead to an option of the other side. -/
structure Conversation.Closed (c : Conversation) : Prop where
  first : ∀ name ∈ c.first, ∃ o, c.npcOptions.find? name = some o
  npc : ∀ name o, c.npcOptions.find? name = some o →
    ∀ pointer ∈ o.pointers, ∃ o', c.playerOptions.find? pointer = some o'
  player : ∀ name o, c.playerOptions.find? name = some o →
    ∀ pointer ∈ o.pointers, ∃ o', c.npcOptions.find? pointer = some o'

/-- A definition as the built-in keywords build it under an identifier. -/
def Kind.Plain (id : ObjectId) (k : Kind) (d : k.Def) : Prop :=
  k.demands true d ⊆ Demand.ofKeywords ∧
    match k, d with
    | .objective, o => Objective.id o = id ∧ (Objective.goal o).Lawful
    | .conversation, c => Conversation.Closed c
    | _, _ => True

/-- The plain definitions. -/
def plain : Stock := fun k id => { d | k.Plain id d }

/-- What is evaluated of a stock keeps within `A`: its conditions and variables, and luck. -/
structure Stock.Evaluates (S : Stock) (A : Set Demand) : Prop where
  luck : .luck ∈ A
  condition {id : ObjectId} {c : Condition} (hc : c ∈ S .condition id) : c.demands ⊆ A
  var {id : ObjectId} {v : Variable} (hv : v ∈ S .var id) : v.demands ⊆ A

theorem plain_evaluates : plain.Evaluates Demand.ofKeywords where
  luck := .inl rfl
  condition hc := hc.1
  var hv := hv.1

/-- Definitions that are evaluated without touching anybody's progress. -/
def aloof : Stock := fun k _ => { d | k.Aloof d }

theorem aloof_evaluates : aloof.Evaluates Demand.aloof where
  luck := .inl rfl
  condition hc := hc
  var hv := hv

/-! ### Drafts -/

theorem Plan.exists_of_succeeds_bind {σ α β : Type} {sources : Sources} {package : String}
    {s : Stock} {plan : Plan σ α} {f : α → σ → Plan σ β} {b : β}
    (h : (plan.bind f).Succeeds sources package s b) :
    ∃ a x, plan.Succeeds sources package s a ∧ (f a x).Succeeds sources package s b := by
  induction plan with
  | done a x => exact ⟨a, x, rfl, h⟩
  | fail e x => exact h.elim
  | refer r x next ih =>
    obtain ⟨t, hmet, hnext⟩ := h
    obtain ⟨a, y, ha, hb⟩ := ih t hnext
    exact ⟨a, y, ⟨t, hmet, ha⟩, hb⟩

namespace Draft

variable {σ α β γ : Type} {R : α → Prop} {R' : β → Prop}

/-- Whatever a draft comes to with its references answered from a stock satisfies `R`. -/
def GivesFrom (S : Stock) (R : α → Prop) (draft : Draft σ α) : Prop :=
  ∀ sources package x a, (draft x).Succeeds sources package S a → R a

/-- Whatever a draft comes to with its references answered by plain definitions satisfies `R`. -/
abbrev Gives (R : α → Prop) (draft : Draft σ α) : Prop := draft.GivesFrom plain R

section

variable {S : Stock}

theorem gives_pure {a : α} (h : R a) : (pure a : Draft σ α).GivesFrom S R := by
  intro sources package x b hb
  cases hb
  exact h

theorem gives_bind {draft : Draft σ α} {f : α → Draft σ β} (hd : draft.GivesFrom S R)
    (hf : ∀ a, R a → (f a).GivesFrom S R') : (draft >>= f).GivesFrom S R' := by
  intro sources package x b hb
  obtain ⟨a, y, ha, hb⟩ := Plan.exists_of_succeeds_bind hb
  exact hf a (hd _ _ _ _ ha) _ _ _ _ hb

theorem gives_map {draft : Draft σ α} {f : α → β} (hd : draft.GivesFrom S fun a => R' (f a)) :
    (f <$> draft).GivesFrom S R' := gives_bind hd fun _ ha => gives_pure ha

theorem gives_fail (e : BuildError) : (fail e : Draft σ α).GivesFrom S R := fun _ _ _ _ h => h.elim

theorem gives_read (r : Line.Reader α) :
    (read r).GivesFrom S fun a => ∃ l l' : Line, l.read r = (.ok a, l') := by
  intro sources package l a h
  unfold read at h
  split at h
  · rename_i b l' hread
    cases h
    exact ⟨l, l', hread⟩
  · exact h.elim

theorem GivesFrom.mono {draft : Draft σ α} {T : α → Prop} (h : draft.GivesFrom S R)
    (hT : ∀ a, R a → T a) : draft.GivesFrom S T :=
  fun _ _ _ a ha => hT a (h _ _ _ a ha)

theorem GivesFrom.and {draft : Draft σ α} {T : α → Prop} (h : draft.GivesFrom S R)
    (hT : draft.GivesFrom S T) : draft.GivesFrom S fun a => R a ∧ T a :=
  fun _ _ _ a ha => ⟨h _ _ _ a ha, hT _ _ _ a ha⟩

/-- What is read first does not matter to what is built. -/
theorem gives_read_bind {r : Line.Reader α} {f : α → LineDraft β} (hf : ∀ a, (f a).GivesFrom S R') :
    (read r >>= f).GivesFrom S R' :=
  gives_bind (gives_read r) fun a _ => hf a

theorem gives_trivial {draft : Draft σ α} : draft.GivesFrom S fun _ => True :=
  fun _ _ _ _ _ => trivial

theorem gives_failHere (problem : LineProblem) : (read (Line.failHere problem)).GivesFrom S R := by
  intro sources package l a h
  exact h.elim

theorem gives_each {f : γ → Draft σ α} {cs : List γ} (hf : ∀ c ∈ cs, (f c).GivesFrom S R) :
    (each f cs).GivesFrom S fun as => ∀ a ∈ as, R a := by
  induction cs with
  | nil => exact gives_pure nofun
  | cons c rest ih =>
    rw [List.forall_mem_cons] at hf
    refine gives_bind hf.1 fun a ha => gives_bind (ih hf.2) fun as has => gives_pure ?_
    exact List.forall_mem_cons.2 ⟨ha, has⟩

/-- One draft for each element of a list: the answers are those of the elements. -/
theorem gives_each_of_mem {f : γ → Draft σ α} {T : γ → α → Prop} {cs : List γ}
    (hf : ∀ c, (f c).GivesFrom S (T c)) : (each f cs).GivesFrom S fun as =>
      (∀ a ∈ as, ∃ c ∈ cs, T c a) ∧ ∀ c ∈ cs, ∃ a ∈ as, T c a := by
  induction cs with
  | nil => exact gives_pure ⟨nofun, nofun⟩
  | cons c rest ih =>
    refine gives_bind (hf c) fun a ha => gives_bind ih fun as has => gives_pure ⟨?_, ?_⟩
    · refine List.forall_mem_cons.2 ⟨⟨c, List.mem_cons_self, ha⟩, fun x hx => ?_⟩
      obtain ⟨y, hy, hxy⟩ := has.1 x hx
      exact ⟨y, List.mem_cons_of_mem _ hy, hxy⟩
    · refine List.forall_mem_cons.2 ⟨⟨a, List.mem_cons_self, ha⟩, fun x hx => ?_⟩
      obtain ⟨y, hy, hxy⟩ := has.2 x hx
      exact ⟨y, List.mem_cons_of_mem _ hy, hxy⟩

end

theorem demandsOf_subset {cs : List ConditionRef} {A : Set Demand}
    (h : ∀ c ∈ cs, c.target.demands ⊆ A) : Condition.demandsOf cs ⊆ A := by
  induction cs with
  | nil => simp [Condition.demandsOf]
  | cons c rest ih =>
    rw [List.forall_mem_cons] at h
    rw [Condition.demandsOf, Set.union_subset_iff]
    exact ⟨h.1, ih h.2⟩

theorem actionDemandsOf_subset {deep : Bool} {es : List EventRef} {A : Set Demand}
    (h : ∀ e ∈ es, Condition.demandsOf e.target.conditions ∪ e.target.content.demands deep ⊆ A) :
    Action.demandsOf deep es ⊆ A := by
  induction es with
  | nil => simp [Action.demandsOf]
  | cons e rest ih =>
    rw [List.forall_mem_cons] at h
    rw [Action.demandsOf, Set.union_subset_iff]
    exact ⟨h.1, ih h.2⟩

section

variable {S : Stock} {A : Set Demand} (hS : S.Evaluates A)

include hS

theorem gives_condition (raw : String) :
    (condition raw : Draft σ ConditionRef).GivesFrom S fun c => c.target.demands ⊆ A := by
  rintro sources package x c ⟨t, hmet, rfl⟩
  obtain ⟨id, d, -, hd, rfl⟩ := (Reference.met_of_lead rfl).1 hmet
  exact hS.condition hd

theorem gives_var (raw : String) :
    (var raw : Draft σ VariableRef).GivesFrom S fun v => v.target.demands ⊆ A := by
  rintro sources package x c ⟨t, hmet, rfl⟩
  obtain ⟨id, d, -, hd, rfl⟩ := (Reference.met_of_lead rfl).1 hmet
  exact hS.var hd

theorem gives_conditions (raws : List String) :
    (each condition raws : Draft σ (List ConditionRef)).GivesFrom S fun cs =>
      Condition.demandsOf cs ⊆ A :=
  (gives_each fun raw _ => gives_condition hS raw).mono fun _ => demandsOf_subset

theorem gives_gate : Registry.gate.GivesFrom S fun cs => Condition.demandsOf cs ⊆ A :=
  gives_read_bind (gives_conditions hS)

theorem gives_nextQuantity : nextQuantity.GivesFrom S fun q => q.demands ⊆ A := by
  refine gives_read_bind fun token => ?_
  split
  · exact gives_map ((gives_var hS _).mono fun v hv => hv)
  · split
    · exact gives_pure (by simp [Quantity.demands])
    · exact gives_failHere _

end

theorem gives_event (raw : String) : (event raw : Draft σ EventRef).Gives fun e =>
    Condition.demandsOf e.target.conditions ∪ e.target.content.demands true ⊆
      Demand.ofKeywords := by
  rintro sources package x c ⟨t, hmet, rfl⟩
  obtain ⟨id, d, -, hd, rfl⟩ := (Reference.met_of_lead rfl).1 hmet
  exact hd.1

theorem gives_events (raws : List String) :
    (each event raws : Draft σ (List EventRef)).Gives fun es =>
      Action.demandsOf true es ⊆ Demand.ofKeywords :=
  (gives_each fun raw _ => gives_event raw).mono fun _ => actionDemandsOf_subset

theorem gives_richText (raw : String) : (richText raw : Draft σ RichText).Gives fun text =>
    text.demands ⊆ Demand.ofKeywords := by
  have hsegments : (richText raw : Draft σ RichText).Gives fun text => ∀ segment ∈ text,
      RichText.demands [segment] ⊆ Demand.ofKeywords := by
    refine gives_each fun segment _ => ?_
    cases segment with
    | literal text => exact gives_pure (by simp [RichText.demands])
    | reference name =>
      exact gives_map ((gives_var plain_evaluates name).mono fun v hv => by
        simpa [RichText.demands] using hv)
  refine hsegments.mono fun text => ?_
  induction text with
  | nil => simp [RichText.demands]
  | cons segment rest ih =>
    intro h
    rw [List.forall_mem_cons] at h
    cases segment with
    | literal text => exact ih h.2
    | reference v =>
      simp only [RichText.demands, Set.union_empty] at h
      exact Set.union_subset h.1 (ih h.2)

/-- A built-in keyword, or a refusal where its integration is missing. -/
theorem gives_given {S : Stock} {present : Bool} {feature : String} {draft : LineDraft α}
    (h : draft.GivesFrom S R) : (Vocabulary.given present feature draft).GivesFrom S R := by
  unfold Vocabulary.given
  split
  · exact h
  · exact gives_fail _

theorem gives_byKeyword {S : Stock} {k : Kind} {drafts : List (String × LineDraft α)}
    (h : ∀ e ∈ drafts, e.2.GivesFrom S R) :
    (Registry.byKeyword k (.ofList drafts)).GivesFrom S R := by
  intro sources package l a ha
  unfold Registry.byKeyword at ha
  split at ha
  · rename_i draft hdraft
    exact h _ (Table.mem_of_find?_ofList hdraft) _ _ _ _ ha
  · exact ha.elim

end Draft

/-! ### The built-in keywords -/

/-- A composite reader that answers has two parts that answer. -/
theorem Line.exists_of_read_bind {α β : Type} {r : Line.Reader α} {f : α → Line.Reader β}
    {l l' : Line} {b : β} (h : l.read (r >>= f) = (.ok b, l')) :
    ∃ a l₁, l.read r = (.ok a, l₁) ∧ l₁.read (f a) = (.ok b, l') := by
  have hbind : l.read (r >>= f) = (ExceptT.bindCont f (l.read r).1).run (l.read r).2 := rfl
  rw [hbind] at h
  rcases hr : l.read r with ⟨_ | a, l₁⟩
  · rw [hr] at h
    cases h
  · rw [hr] at h
    exact ⟨a, l₁, rfl, h⟩

namespace Vocabulary

open Draft

variable {i : Integrations}

theorem unsigned?_le {limit n : Nat} {s : String} (h : Decimal.unsigned? limit s = some n) :
    n ≤ limit := by
  unfold Decimal.unsigned? at h
  split at h <;> simpa using (Option.filter_eq_some_iff.1 h).2

/-- The number to kill is a 32-bit one. -/
theorem nextPositive_le {l l' : Line} {n : Nat}
    (h : l.read Line.nextPositive = (.ok n, l')) : n ≤ Decimal.maxUnsigned32 := by
  obtain ⟨k, l₁, hnext, h⟩ := Line.exists_of_read_bind h
  split at h
  · cases h
  · cases h
    obtain ⟨token, l₂, -, hread⟩ := Line.exists_of_read_bind hnext
    split at hread
    · rename_i m hm
      cases hread
      exact unsigned?_le hm
    · cases hread

section

variable {S : Stock} {A : Set Demand} (hS : S.Evaluates A)

include hS

theorem gives_registry_condition :
    (registry i).condition.GivesFrom S fun c => c.demands ⊆ A := by
  have hplain : ∀ c : Condition, c.demands = ∅ → c.demands ⊆ A :=
    fun c h => h ▸ Set.empty_subset _
  refine gives_byKeyword ?_
  simp only [List.forall_mem_cons]
  refine ⟨?_, ?_, ?_, ?_, ?_, ?_, ?_, ?_, ?_, nofun⟩
  · exact gives_pure (hplain _ rfl)
  · exact gives_map (gives_trivial.mono fun d _ => hplain _ rfl)
  · exact gives_read_bind fun raws => gives_map ((gives_conditions hS raws).mono fun cs hcs => hcs)
  · exact gives_read_bind fun raws => gives_map ((gives_conditions hS raws).mono fun cs hcs => hcs)
  · exact gives_map (gives_trivial.mono fun d _ => hplain _ rfl)
  · exact gives_read_bind fun raw => gives_map (gives_trivial.mono fun d _ => hplain _ rfl)
  · refine gives_map ((gives_nextQuantity hS).mono fun q hq => ?_)
    rw [Condition.demands]
    rintro d (hd | ⟨rfl, -⟩)
    · exact hq hd
    · exact hS.luck
  · exact gives_given (gives_read_bind fun _ => gives_read_bind fun _ => gives_read_bind fun _ =>
      gives_pure (hplain _ rfl))
  · exact gives_given (gives_map ((gives_nextQuantity hS).mono fun q hq => hq))

omit hS in
theorem gives_registry_var : (registry i).var.GivesFrom S fun v => v.demands ⊆ A := by
  have hplain : ∀ v : Variable, v.demands = ∅ → v.demands ⊆ A :=
    fun v h => h ▸ Set.empty_subset _
  refine gives_byKeyword ?_
  simp only [List.forall_mem_cons]
  refine ⟨gives_given ?_, ?_, ?_, ?_, nofun⟩
  · refine gives_read_bind fun token => ?_
    split
    · exact gives_pure (hplain _ rfl)
    · split
      · exact gives_pure (hplain _ rfl)
      · exact gives_failHere _
  · exact gives_read_bind fun raw => gives_bind gives_trivial fun id _ =>
      gives_map (gives_trivial.mono fun d _ => hplain _ rfl)
  · exact gives_map (gives_trivial.mono fun d _ => hplain _ rfl)
  · refine gives_read_bind fun bare => ?_
    split
    · exact gives_pure (hplain _ rfl)
    · exact gives_map (gives_trivial.mono fun d _ => hplain _ rfl)

theorem gives_goal : (Registry.byKeyword .objective (registry i).goals).GivesFrom S fun g =>
    g.demands ⊆ A ∧ g.Lawful := by
  refine gives_byKeyword ?_
  simp only [List.forall_mem_cons]
  refine ⟨?_, ?_, ?_, nofun⟩
  · exact gives_read_bind fun target =>
      gives_map ((gives_nextQuantity hS).mono fun q hq => ⟨hq, trivial⟩)
  · exact gives_read_bind fun target =>
      gives_map ((gives_nextQuantity hS).mono fun q hq => ⟨hq, trivial⟩)
  · refine gives_read_bind fun entities => ?_
    split
    · exact gives_fail _
    · refine gives_bind (gives_read _) fun amount hamount => gives_pure ?_
      obtain ⟨l, l', hread⟩ := hamount
      exact ⟨Set.empty_subset _, nextPositive_le hread⟩

end

theorem gives_action : (Registry.byKeyword .event (registry i).events).Gives fun a =>
    a.demands true ⊆ Demand.ofKeywords := by
  have hplain : ∀ a : Action, a.demands true = ∅ → a.demands true ⊆ Demand.ofKeywords :=
    fun a h => h ▸ Set.empty_subset _
  refine gives_byKeyword ?_
  simp only [List.forall_mem_cons]
  refine ⟨?_, ?_, ?_, ?_, ?_, ?_, ?_, nofun⟩
  · exact gives_read_bind fun spot => gives_read_bind fun switch => gives_pure (hplain _ rfl)
  · refine gives_read_bind fun ticks => gives_read_bind fun raws =>
      gives_map ((gives_events raws).mono fun es hes => ?_)
    rw [Action.demands]
    exact fun d hd => hes hd.2
  · refine gives_read_bind fun action => gives_read_bind fun raw =>
      gives_map (gives_trivial.mono fun id _ => ?_)
    rw [Action.demands, Set.singleton_subset_iff]
    exact .inr ⟨action, id, rfl⟩
  · exact gives_read_bind fun place => gives_read_bind fun message =>
      gives_map ((gives_richText message).mono fun text h => h)
  · exact gives_map (gives_trivial.mono fun d _ => hplain _ rfl)
  · exact gives_map (gives_trivial.mono fun d _ => hplain _ rfl)
  · exact gives_given (gives_map ((gives_nextQuantity plain_evaluates).mono fun q hq => hq))

theorem gives_registry_event : (registry i).event.Gives fun e =>
    Condition.demandsOf e.conditions ∪ e.content.demands true ⊆ Demand.ofKeywords := by
  refine gives_bind gives_trivial fun _ _ => ?_
  refine gives_bind (gives_gate plain_evaluates) fun conditions hconditions => ?_
  exact gives_bind gives_action fun content hcontent =>
    gives_pure (Set.union_subset hconditions hcontent)

theorem gives_registry_objective (id : ObjectId) : ((registry i).objective id).Gives fun o =>
    Kind.Plain id .objective o := by
  refine gives_bind gives_trivial fun _ _ => ?_
  refine gives_bind (gives_gate plain_evaluates) fun conditions hconditions => ?_
  refine gives_read_bind fun raws => gives_bind (gives_events raws) fun events hevents => ?_
  exact gives_bind (gives_goal plain_evaluates) fun goal hgoal => gives_pure
    ⟨Set.union_subset (Set.union_subset hgoal.1 hconditions) hevents, rfl, hgoal.2⟩

/-- The built-in keywords judge an objective without touching progress. -/
theorem gives_objective_aloof (id : ObjectId) :
    ((registry i).objective id).GivesFrom aloof Objective.Aloof := by
  refine gives_bind gives_trivial fun _ _ => ?_
  refine gives_bind (gives_gate aloof_evaluates) fun conditions hconditions => ?_
  refine gives_read_bind fun _ => gives_bind gives_trivial fun _ _ => ?_
  exact gives_bind (gives_goal aloof_evaluates) fun goal hgoal =>
    gives_pure ⟨hgoal.1, hconditions⟩

end Vocabulary

/-! ### Conversations -/

namespace ConversationSource

open Draft

theorem gives_option (o : OptionSource) : (option o).Gives fun o' =>
    o'.demands true ⊆ Demand.ofKeywords := by
  refine gives_bind (gives_richText _) fun text htext => ?_
  refine gives_bind (gives_conditions plain_evaluates _) fun cs hcs => ?_
  refine gives_bind (gives_events _) fun es hes => gives_pure ?_
  exact Set.union_subset (Set.union_subset htext hcs) hes

section

variable {S : Stock} {R : TalkOption → Prop}

/-- Whatever it is built from, an option keeps its pointers. -/
theorem gives_pointers (o : OptionSource) :
    (option o).GivesFrom S fun o' => o'.pointers = o.pointers := by
  refine gives_bind gives_trivial fun text _ => ?_
  refine gives_bind gives_trivial fun cs _ => ?_
  exact gives_bind gives_trivial fun es _ => gives_pure rfl

/-- The options of one side as they are built: the same names, with the same pointers, and each of
them as `R` says. -/
structure Built (R : TalkOption → Prop) (written : Table String OptionSource)
    (built : Table String TalkOption) : Prop where
  each : ∀ name o, built.find? name = some o → R o
  find? : ∀ name, written.contains name = true → ∃ o, built.find? name = some o
  pointers : ∀ name o, built.find? name = some o →
    ∃ e ∈ written.entries, o.pointers = e.2.pointers

theorem gives_options (h : ∀ o, (option o).GivesFrom S R) (written : Table String OptionSource) :
    (options written).GivesFrom S (Built R written) := by
  have hentry : ∀ e : String × OptionSource,
      ((e.1, ·) <$> option e.2 : Draft Unit _).GivesFrom S fun x =>
        x.1 = e.1 ∧ R x.2 ∧ x.2.pointers = e.2.pointers :=
    fun e => gives_map (((h e.2).and (gives_pointers e.2)).mono fun o ho => ⟨rfl, ho⟩)
  refine gives_bind (gives_each_of_mem hentry) fun built hbuilt => gives_pure ?_
  refine ⟨fun name o h => ?_, fun name h => ?_, fun name o h => ?_⟩
  · obtain ⟨e, -, -, hR, -⟩ := hbuilt.1 _ (Table.mem_of_find?_ofList h)
    exact hR
  · obtain ⟨e, he, rfl⟩ := List.mem_map.1 (Table.contains_iff_mem_keys.1 h)
    obtain ⟨⟨name, o⟩, ho, rfl, -⟩ := hbuilt.2 e he
    exact Option.isSome_iff_exists.1 (Table.contains_ofList ho)
  · obtain ⟨e, he, -, -, hpointers⟩ := hbuilt.1 _ (Table.mem_of_find?_ofList h)
    exact ⟨e, he, hpointers⟩

/-- Built of a graph without a flaw, a conversation is closed. -/
theorem closed_of_built {c : ConversationSource} {hasScreen : String → Bool}
    (hflaw : c.flaw? hasScreen = none) {talk : Conversation} (hfirst : talk.first = c.first)
    (hn : Built R c.npcOptions talk.npcOptions) (hp : Built R c.playerOptions talk.playerOptions) :
    talk.Closed := by
  obtain ⟨-, hstart, hnpc, hplayer, -⟩ := flaw?_eq_none.1 hflaw
  refine ⟨fun name h => hn.find? name (hstart name (hfirst ▸ h)),
    fun name o ho pointer hpointer => ?_, fun name o ho pointer hpointer => ?_⟩
  · obtain ⟨e, he, heq⟩ := hn.pointers name o ho
    exact hp.find? pointer (hnpc e he pointer (heq ▸ hpointer))
  · obtain ⟨e, he, heq⟩ := hp.pointers name o ho
    exact hn.find? pointer (hplayer e he pointer (heq ▸ hpointer))

end

theorem gives_draft {i : Integrations} {id : ObjectId} {c : ConversationSource} :
    (c.draft (Vocabulary.registry i) id).Gives fun talk => Kind.Plain id .conversation talk := by
  unfold draft
  cases hflaw : c.flaw? fun name => ((Vocabulary.registry i).screen? name).isSome with
  | some text => exact gives_fail _
  | none =>
    refine gives_bind (gives_options gives_option _) fun npc hn =>
      gives_bind (gives_options gives_option _) fun player hp =>
      gives_bind (gives_richText _) fun quester hquester => gives_bind (gives_events _)
        fun final hfinal => gives_pure ⟨?_, closed_of_built hflaw rfl hn hp⟩
    refine Set.union_subset (Set.union_subset (Set.union_subset hquester hfinal) ?_) ?_
    · rintro d ⟨name, o, ho, hd⟩
      exact hn.each name o ho hd
    · rintro d ⟨name, o, ho, hd⟩
      exact hp.each name o ho hd

end ConversationSource

/-! ### What is compiled -/

variable {i : Integrations} {sources : Sources} {k : Kind} {id : ObjectId}

theorem Plan.succeeds_forget {σ α : Type} {package : String} {s : Stock} {plan : Plan σ α} {a : α} :
    plan.forget.Succeeds sources package s a ↔ plan.Succeeds sources package s a := by
  induction plan with
  | done | fail => exact Iff.rfl
  | refer r x next ih => exact exists_congr fun t => and_congr_right fun _ => ih t

/-- What a draft gives is what is built of a line by it. -/
theorem Draft.GivesFrom.linePlan {α : Type} {S : Stock} {R : α → Prop} {draft : LineDraft α}
    (h : draft.GivesFrom S R) {line package : String} {a : α}
    (hsucceeds : (linePlan id line draft).Succeeds sources package S a) : R a := by
  unfold Questbook.linePlan at hsucceeds
  split at hsucceeds
  · exact h _ _ _ _ (Plan.succeeds_forget.1 hsucceeds)
  · exact hsucceeds.elim

/-- What is compiled is of any stock that is closed under building. -/
theorem mem_of_compile {registry : Registry} {S : Stock} (hS : grow registry sources S ≤ S)
    {d : k.Def} (h : (Packages.compile registry sources).get k id = .ok d) : d ∈ S k id :=
  OrderHom.lfp_le _ hS k id (compile_find?.1 (Packages.find?_of_get h))

/-- Objectives under their own identifiers, and any other definitions. -/
def titled : Stock
  | .objective, id => { o : Objective | o.id = id }
  | _, _ => Set.univ

/-- Whatever the keywords are, an objective is built under its own identifier. -/
theorem compile_id {registry : Registry} {definition : Objective}
    (h : (Packages.compile registry sources).get .objective id = .ok definition) :
    definition.id = id := by
  refine mem_of_compile (S := titled) ?_ h
  rintro k id d ⟨line, plan, hblueprint, hsucceeds⟩
  cases blueprint?_eq_some_iff.1 hblueprint with
  | objective =>
    have hgives : (registry.objective id).GivesFrom titled fun o => o.id = id := by
      refine Draft.gives_bind Draft.gives_trivial fun _ _ => ?_
      refine Draft.gives_bind Draft.gives_trivial fun _ _ => ?_
      refine Draft.gives_read_bind fun _ => Draft.gives_bind Draft.gives_trivial fun _ _ => ?_
      exact Draft.gives_bind Draft.gives_trivial fun _ _ => Draft.gives_pure rfl
    exact hgives.linePlan hsucceeds
  | _ => trivial

/-- From plain definitions the built-in keywords build plain ones. -/
theorem grow_plain : grow (Vocabulary.registry i) sources plain ≤ plain := by
  intro k id d hd
  obtain ⟨line, plan, hblueprint, hsucceeds⟩ := hd
  cases blueprint?_eq_some_iff.1 hblueprint with
  | conversation => exact ConversationSource.gives_draft _ _ _ _ hsucceeds
  | condition =>
    exact ⟨(Vocabulary.gives_registry_condition plain_evaluates).linePlan hsucceeds, trivial⟩
  | event => exact ⟨Vocabulary.gives_registry_event.linePlan hsucceeds, trivial⟩
  | objective => exact (Vocabulary.gives_registry_objective id).linePlan hsucceeds
  | var => exact ⟨Vocabulary.gives_registry_var.linePlan hsucceeds, trivial⟩
  | item => exact ⟨Set.empty_subset _, trivial⟩

/-- What is compiled with the built-in keywords is plain. -/
theorem compile_plain {d : k.Def}
    (h : (Packages.compile (Vocabulary.registry i) sources).get k id = .ok d) : k.Plain id d :=
  mem_of_compile grow_plain h

/-- The goals of what is compiled with the built-in keywords can read their own progress. -/
theorem compile_lawful (i : Integrations) (sources : Sources) :
    (Packages.compile (Vocabulary.registry i) sources).Lawful :=
  fun _ _ h => (compile_plain h).2.2

/-- What is compiled with the built-in keywords is evaluated without touching anybody's progress. -/
theorem compile_aloof {d : k.Def}
    (h : (Packages.compile (Vocabulary.registry i) sources).get k id = .ok d) : k.Aloof d := by
  refine mem_of_compile (S := aloof) ?_ h
  rintro k id d ⟨line, plan, hblueprint, hsucceeds⟩
  cases blueprint?_eq_some_iff.1 hblueprint with
  | condition => exact (Vocabulary.gives_registry_condition aloof_evaluates).linePlan hsucceeds
  | objective => exact (Vocabulary.gives_objective_aloof id).linePlan hsucceeds
  | var => exact Vocabulary.gives_registry_var.linePlan hsucceeds
  | event | item | conversation => trivial

end Questbook
