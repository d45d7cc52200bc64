/-
Questbook/Proofs/Package/Options.lean

The options of a conversation in another order.

Whether a conversation can be built is said of its options one by one: each pointer leads to an
option of the other side, and whatever an option refers to is there (`can_draft`).  So the order in
which the options are gone through decides nothing but which error comes first, and conversations
that are alike but for that order are built together or fail together.  Nothing refers to a
conversation, so that no other definition is touched either.
-/
import Questbook.Proofs.Package.References

namespace Questbook

/-! ### Drafts that can be carried out -/

section

variable {α β γ : Type} {sources : Sources} {package : String} {s : Stock}

theorem Plan.succeeds_bind {plan : Plan Unit α} {f : α → Unit → Plan Unit β} {b : β} :
    (plan.bind f).Succeeds sources package s b ↔
      ∃ a, plan.Succeeds sources package s a ∧ (f a ()).Succeeds sources package s b := by
  induction plan with
  | done a x =>
    refine ⟨fun h => ⟨a, rfl, h⟩, fun ⟨a', ha, h⟩ => ?_⟩
    cases ha
    exact h
  | fail e x => exact ⟨nofun, fun ⟨_, h, _⟩ => h.elim⟩
  | refer r x next ih =>
    refine ⟨fun ⟨t, hmet, h⟩ => ?_, fun ⟨a, ⟨t, hmet, ha⟩, h⟩ => ?_⟩
    · obtain ⟨a, ha, hb⟩ := (ih t).1 h
      exact ⟨a, ⟨t, hmet, ha⟩, hb⟩
    · exact ⟨t, hmet, (ih t).2 ⟨a, ha, h⟩⟩

namespace Draft

/-- A draft that reads from nothing comes to some answer with its references answered from a
stock. -/
def Can (sources : Sources) (package : String) (s : Stock) (draft : Draft Unit α) : Prop :=
  ∃ a, (draft ()).Succeeds sources package s a

theorem can_pure (a : α) : (pure a : Draft Unit α).Can sources package s := ⟨a, rfl⟩

/-- One draft after another, where the first one's answer does not decide whether the second can be
carried out. -/
theorem can_bind {draft : Draft Unit α} {f : α → Draft Unit β} {p : Prop}
    (h : ∀ a, (f a).Can sources package s ↔ p) :
    (draft >>= f).Can sources package s ↔ draft.Can sources package s ∧ p := by
  refine ⟨fun ⟨b, hb⟩ => ?_, fun ⟨⟨a, ha⟩, hp⟩ => ?_⟩
  · obtain ⟨a, ha, hfa⟩ := Plan.succeeds_bind.1 hb
    exact ⟨⟨a, ha⟩, (h a).1 ⟨b, hfa⟩⟩
  · obtain ⟨b, hb⟩ := (h a).2 hp
    exact ⟨b, Plan.succeeds_bind.2 ⟨a, ha, hb⟩⟩

theorem can_bind_pure {draft : Draft Unit α} {f : α → β} :
    (draft >>= fun a => pure (f a)).Can sources package s ↔ draft.Can sources package s := by
  rw [can_bind fun a => iff_true_intro (can_pure (f a)), and_true]

/-- One draft for each element of a list: each of them can be carried out, whatever the order. -/
theorem can_each {f : γ → Draft Unit α} {cs : List γ} :
    (each f cs).Can sources package s ↔ ∀ c ∈ cs, (f c).Can sources package s := by
  induction cs with
  | nil => exact ⟨nofun, fun _ => can_pure []⟩
  | cons c rest ih =>
    rw [each, can_bind fun a => can_bind_pure, ih, List.forall_mem_cons]

end Draft

end

/-! ### What makes a conversation -/

namespace ConversationSource

variable {sources : Sources} {package : String} {s : Stock}

theorem strayPointer?_eq_none {options : Table String OptionSource} {pointers : List String} :
    strayPointer? options pointers = none ↔ ∀ p ∈ pointers, options.contains p = true := by
  simp [strayPointer?]

theorem strayOption?_eq_none {options others : Table String OptionSource} :
    strayOption? options others = none ↔
      ∀ e ∈ options.entries, ∀ p ∈ e.2.pointers, others.contains p = true := by
  simp only [strayOption?, List.findSome?_eq_none_iff, Option.map_eq_none_iff,
    strayPointer?_eq_none]

/-- A conversation without a flaw is a closed graph that begins somewhere, on a screen that
exists. -/
theorem flaw?_eq_none {c : ConversationSource} {hasScreen : String → Bool} :
    c.flaw? hasScreen = none ↔ c.first ≠ [] ∧
      (∀ p ∈ c.first, c.npcOptions.contains p = true) ∧
      (∀ e ∈ c.npcOptions.entries, ∀ p ∈ e.2.pointers, c.playerOptions.contains p = true) ∧
      (∀ e ∈ c.playerOptions.entries, ∀ p ∈ e.2.pointers, c.npcOptions.contains p = true) ∧
      ∀ name, c.screen = some name → hasScreen name = true := by
  rw [← strayPointer?_eq_none, ← strayOption?_eq_none, ← strayOption?_eq_none]
  unfold flaw?
  by_cases hfirst : c.first = []
  · simp [hfirst]
  · cases hstart : strayPointer? c.npcOptions c.first with
    | some p => simp [hfirst]
    | none =>
      cases hnpc : strayOption? c.npcOptions c.playerOptions with
      | some x => simp [hfirst]
      | none =>
        cases hplayer : strayOption? c.playerOptions c.npcOptions with
        | some x => simp [hfirst]
        | none => cases c.screen <;> simp [hfirst]

theorem can_options {t : Table String OptionSource} : (options t).Can sources package s ↔
    ∀ e ∈ t.entries, (option e.2).Can sources package s := by
  rw [options, Draft.can_bind_pure, Draft.can_each]
  exact forall₂_congr fun e _ => Draft.can_bind_pure

/-- A conversation can be built if it has no flaw and what each part refers to is there. -/
theorem can_draft {registry : Registry} {id : ObjectId} {c : ConversationSource} :
    (c.draft registry id).Can sources package s ↔
      c.flaw? (fun name => (registry.screen? name).isSome) = none ∧
      (options c.npcOptions).Can sources package s ∧
      (options c.playerOptions).Can sources package s ∧
      (Draft.richText c.quester : Draft Unit RichText).Can sources package s ∧
      (Draft.each Draft.event c.finalEvents : Draft Unit (List EventRef)).Can
        sources package s := by
  unfold draft
  cases c.flaw? fun name => (registry.screen? name).isSome with
  | some text => exact ⟨fun ⟨_, h⟩ => h.elim, nofun⟩
  | none =>
    rw [Draft.can_bind fun _ => Draft.can_bind fun _ => Draft.can_bind fun _ => Draft.can_bind_pure]
    exact ⟨fun h => ⟨rfl, h⟩, fun h => h.2⟩

/-! ### Another order -/

/-- Conversations that differ at most in the order of their options. -/
structure Alike (c c' : ConversationSource) : Prop where
  quester : c.quester = c'.quester
  first : c.first = c'.first
  screen : c.screen = c'.screen
  finalEvents : c.finalEvents = c'.finalEvents
  npcOptions : ∀ name, c.npcOptions.find? name = c'.npcOptions.find? name
  playerOptions : ∀ name, c.playerOptions.find? name = c'.playerOptions.find? name

/-- Tables with the same view have the same entries. -/
theorem forall_entries_congr {t t' : Table String OptionSource} {p : String × OptionSource → Prop}
    (h : ∀ name, t.find? name = t'.find? name) :
    (∀ e ∈ t.entries, p e) ↔ ∀ e ∈ t'.entries, p e := by
  have hmem : ∀ e, e ∈ t.entries ↔ e ∈ t'.entries := by
    rintro ⟨name, o⟩
    rw [Table.mem_entries_iff, Table.mem_entries_iff, h]
  simp only [hmem]

theorem contains_congr {t t' : Table String OptionSource}
    (h : ∀ name, t.find? name = t'.find? name) (name : String) :
    t.contains name = t'.contains name :=
  congrArg Option.isSome (h name)

theorem Alike.flaw?_eq_none {c c' : ConversationSource} (h : c.Alike c')
    (hasScreen : String → Bool) : c.flaw? hasScreen = none ↔ c'.flaw? hasScreen = none := by
  rw [ConversationSource.flaw?_eq_none, ConversationSource.flaw?_eq_none,
    forall_entries_congr h.npcOptions, forall_entries_congr h.playerOptions, h.first, h.screen]
  simp only [contains_congr h.npcOptions, contains_congr h.playerOptions]

/-- Whether a conversation can be built does not depend on the order of its options. -/
theorem Alike.can_draft {registry : Registry} {id : ObjectId} {c c' : ConversationSource}
    (h : c.Alike c') : (c.draft registry id).Can sources package s ↔
      (c'.draft registry id).Can sources package s := by
  rw [ConversationSource.can_draft, ConversationSource.can_draft, h.flaw?_eq_none, can_options,
    can_options, can_options, can_options, forall_entries_congr h.npcOptions,
    forall_entries_congr h.playerOptions, h.quester, h.finalEvents]

theorem Alike.symm {c c' : ConversationSource} (h : c.Alike c') : c'.Alike c where
  quester := h.quester.symm
  first := h.first.symm
  screen := h.screen.symm
  finalEvents := h.finalEvents.symm
  npcOptions name := (h.npcOptions name).symm
  playerOptions name := (h.playerOptions name).symm

end ConversationSource

/-! ### Packages in another order -/

/-- Packages that declare the same names and in which the same is written, apart from the order of
the options of conversations. -/
structure Sources.Alike (s s' : Sources) : Prop where
  declares : ∀ k id, s.declares k id = s'.declares k id
  line : ∀ k id, s.line? k id = s'.line? k id
  conversation : ∀ id,
    Option.Rel ConversationSource.Alike (s.conversation? id) (s'.conversation? id)

variable {registry : Registry} {sources sources' : Sources}

theorem Sources.Alike.symm (h : sources.Alike sources') : sources'.Alike sources where
  declares k id := (h.declares k id).symm
  line k id := (h.line k id).symm
  conversation id := by
    have hsymm : ∀ {x x' : Option ConversationSource},
        Option.Rel ConversationSource.Alike x x' → Option.Rel ConversationSource.Alike x' x := by
      intro x x' hx
      cases hx with
      | none => exact .none
      | some hc => exact .some hc.symm
    exact hsymm (h.conversation id)

theorem Sources.Alike.exists_conversation (h : sources.Alike sources') {id : ObjectId}
    {c : ConversationSource} (hc : sources.conversation? id = some c) :
    ∃ c', sources'.conversation? id = some c' ∧ c.Alike c' := by
  have hrel := h.conversation id
  rw [hc] at hrel
  cases hc' : sources'.conversation? id with
  | none =>
    rw [hc'] at hrel
    cases hrel
  | some c' =>
    rw [hc'] at hrel
    cases hrel with
    | some halike => exact ⟨c', rfl, halike⟩

theorem Sources.Alike.agreeOff (h : sources.Alike sources') :
    sources.AgreeOff { x | x.1 = .conversation } sources' where
  declares := h.declares
  line k _ _ := h.line k _
  conversation _ hid := absurd rfl hid

/-- Nothing refers to a conversation. -/
theorem Plan.Asks.ne_conversation {σ α : Type} {package : String} {s : Stock} {plan : Plan σ α}
    {x : Kind × ObjectId} (h : plan.Asks sources package s x) : x.1 ≠ .conversation := by
  induction plan with
  | done => exact h.elim
  | fail => exact h.elim
  | refer r _ next ih =>
    rcases h with ⟨l, hlead, hkind, -⟩ | ⟨t, -, h⟩
    · rw [← hkind]
      cases r with
      | objective raw => cases hlead
      | _ =>
        cases hlead
        exact nofun
    · exact ih t h

theorem clear_conversations {x : Kind × ObjectId} (hx : x.1 ≠ .conversation) :
    Clear registry sources { x | x.1 = .conversation } x := by
  intro y hy hreach
  rcases Relation.ReflTransGen.cases_tail hreach with heq | ⟨z, -, line, plan, -, hasks⟩
  · exact hx (heq ▸ hy)
  · exact hasks.ne_conversation hy

theorem Sources.Alike.grounded_eq (h : sources.Alike sources') {k : Kind} (id : ObjectId)
    (hk : k ≠ .conversation) : grounded registry sources k id = grounded registry sources' k id :=
  grounded_eq_of_agreeOff h.agreeOff (clear_conversations hk)

/-- A conversation is grounded if it is declared and can be built. -/
theorem exists_grounded_conversation {id : ObjectId} :
    (∃ d, d ∈ grounded registry sources .conversation id) ↔
      ∃ c, sources.conversation? id = some c ∧
        (c.draft registry id).Can sources id.package (grounded registry sources) := by
  refine ⟨fun ⟨d, hd⟩ => ?_, fun ⟨c, hc, d, hd⟩ => ?_⟩
  · obtain ⟨line, plan, hblueprint, hsucceeds⟩ := mem_grounded_iff.1 hd
    cases blueprint?_eq_some_iff.1 hblueprint with
    | conversation hc => exact ⟨_, hc, d, hsucceeds⟩
  · exact ⟨d, mem_grounded_iff.2 ⟨none, _, blueprint?_eq_some_iff.2 (.conversation hc), hd⟩⟩

theorem Sources.Alike.exists_grounded (h : sources.Alike sources') {k : Kind} {id : ObjectId}
    (hd : ∃ d, d ∈ grounded registry sources k id) : ∃ d, d ∈ grounded registry sources' k id := by
  by_cases hk : k = .conversation
  · subst hk
    obtain ⟨c, hc, hcan⟩ := exists_grounded_conversation.1 hd
    obtain ⟨c', hc', halike⟩ := h.exists_conversation hc
    obtain ⟨d, hsucceeds⟩ := halike.can_draft.1 hcan
    -- What the conversation asks for is no conversation, so that it is the same on both sides.
    have hsame : ∀ k' id', (c'.draft registry id ()).Asks sources' id.package
        (grounded registry sources) (k', id') →
        grounded registry sources k' id' ⊆ grounded registry sources k' id' ∧
          grounded registry sources k' id' ⊆ grounded registry sources' k' id' := by
      intro k' id' hasks
      exact ⟨subset_rfl, (h.grounded_eq id' hasks.ne_conversation).subset⟩
    have hsucceeds' := (hsucceeds.of_declares h.declares).transfer hsame
    exact exists_grounded_conversation.2 ⟨c', hc', d, hsucceeds'⟩
  · rwa [← h.grounded_eq id hk]

/-- The same definitions are grounded in packages that are alike. -/
theorem Sources.Alike.exists_grounded_iff (h : sources.Alike sources') {k : Kind} {id : ObjectId} :
    (∃ d, d ∈ grounded registry sources k id) ↔ ∃ d, d ∈ grounded registry sources' k id :=
  ⟨h.exists_grounded, h.symm.exists_grounded⟩

end Questbook
