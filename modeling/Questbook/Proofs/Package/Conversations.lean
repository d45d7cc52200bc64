/-
Questbook/Proofs/Package/Conversations.lean

When a conversation is built.

The draft of a conversation looks at its graph before it makes a reference, and then it makes one
for every name in it.  So it comes to a conversation if and only if the graph is closed, it begins
somewhere, its screen is there, and each name leads to a definition that is built; and it does so at
whatever moment of loading it is carried out, since what can be built does not depend on what has
been built so far.  Whatever the keywords are, a conversation that is built leads nowhere amiss.

Main results: `ConversationSource.exists_comesTo_iff`, `compile_conversation_iff` and
`compile_guided`.
-/
import Questbook.Proofs.Package.Written

namespace Questbook

variable {registry : Registry} {sources : Sources}

/-- A name that is written in a package leads to a definition that is built. -/
def Packages.Resolves (K : Packages) (package : String) (k : Kind) (raw : String) : Prop :=
  ∃ d, K.resolve raw k package = .ok d

/-- A reference is answered if its name leads to a definition that is built. -/
theorem exists_met_iff_resolves {r : Reference} {l : Lead r.Target} {raw package : String}
    (hlead : r.lead? = some l) (hname : (l.kind.read raw).2 = l.name) :
    (∃ t, r.Met sources package (grounded registry sources) t) ↔
      (Packages.compile registry sources).Resolves package l.kind raw := by
  constructor
  · rintro ⟨t, ht⟩
    obtain ⟨d, hd, -⟩ := (met_iff_resolve hlead hname).1 ht
    exact ⟨d, hd⟩
  · rintro ⟨d, hd⟩
    exact ⟨_, (met_iff_resolve hlead hname).2 ⟨d, hd, rfl⟩⟩

/-! ### References in texts and lists -/

namespace Draft

variable {package raw : String}

theorem can_refer {s : Stock} {r : Reference} :
    (refer r : Draft Unit r.Target).Can sources package s ↔ ∃ t, r.Met sources package s t :=
  exists_congr fun t => ⟨fun ⟨_, hmet, heq⟩ => heq ▸ hmet, fun hmet => ⟨t, hmet, rfl⟩⟩

theorem can_condition : (condition raw : Draft Unit ConditionRef).Can sources package
    (grounded registry sources) ↔
      (Packages.compile registry sources).Resolves package .condition raw :=
  can_refer.trans (exists_met_iff_resolves (r := .condition raw) rfl rfl)

theorem can_event : (event raw : Draft Unit EventRef).Can sources package
    (grounded registry sources) ↔
      (Packages.compile registry sources).Resolves package .event raw :=
  can_refer.trans (exists_met_iff_resolves (r := .event raw) rfl rfl)

theorem can_var : (var raw : Draft Unit VariableRef).Can sources package
    (grounded registry sources) ↔ (Packages.compile registry sources).Resolves package .var raw :=
  can_refer.trans (exists_met_iff_resolves (r := .var raw) rfl rfl)

/-- A text can be built if the names in it lead to variables. -/
theorem can_richText : (richText raw : Draft Unit RichText).Can sources package
    (grounded registry sources) ↔ ∀ name, .reference name ∈ Template.scan raw →
      (Packages.compile registry sources).Resolves package .var name := by
  rw [richText, can_each]
  constructor
  · exact fun h name hname => can_var.1 (can_bind_pure.1 (h _ hname))
  · intro h segment hsegment
    cases segment with
    | literal text => exact can_pure _
    | reference name => exact can_bind_pure.2 (can_var.2 (h name hsegment))

end Draft

namespace ConversationSource

open Draft

variable {package : String} {id : ObjectId} {c : ConversationSource}

/-- Whether an option is one of a conversation, on either side. -/
def Has (c : ConversationSource) (o : OptionSource) : Prop :=
  ∃ name, c.npcOptions.find? name = some o ∨ c.playerOptions.find? name = some o

/-- What it takes to build a conversation.  It begins somewhere, every pointer leads to an option of
the other side, its screen is registered, and all that it refers to is built. -/
structure Buildable (registry : Registry) (K : Packages) (package : String)
    (c : ConversationSource) : Prop where
  begins : c.first ≠ []
  first : ∀ name ∈ c.first, ∃ o, c.npcOptions.find? name = some o
  npc : ∀ name o, c.npcOptions.find? name = some o →
    ∀ pointer ∈ o.pointers, ∃ o', c.playerOptions.find? pointer = some o'
  player : ∀ name o, c.playerOptions.find? name = some o →
    ∀ pointer ∈ o.pointers, ∃ o', c.npcOptions.find? pointer = some o'
  /-- Screens are told apart up to the case of ASCII letters. -/
  screen : ∀ name, c.screen = some name →
    ∃ style, registry.screens.find? (Text.lower name) = some style
  vars : ∀ text, (text = c.quester ∨ ∃ o, c.Has o ∧ text = o.text) →
    ∀ name, .reference name ∈ Template.scan text → K.Resolves package .var name
  conditions : ∀ o, c.Has o → ∀ raw ∈ o.conditions, K.Resolves package .condition raw
  events : ∀ raw, (raw ∈ c.finalEvents ∨ ∃ o, c.Has o ∧ raw ∈ o.events) →
    K.Resolves package .event raw

theorem can_option {o : OptionSource} : (option o).Can sources package (grounded registry sources) ↔
    (∀ name, .reference name ∈ Template.scan o.text →
      (Packages.compile registry sources).Resolves package .var name) ∧
    (∀ raw ∈ o.conditions, (Packages.compile registry sources).Resolves package .condition raw) ∧
    ∀ raw ∈ o.events, (Packages.compile registry sources).Resolves package .event raw := by
  rw [option, can_bind fun _ => can_bind fun _ => can_bind_pure, can_richText, can_each, can_each]
  simp only [can_condition, can_event]

/-- A table of options in terms of its view. -/
theorem forall_options_iff {t : Table String OptionSource} {P : OptionSource → Prop} :
    (∀ e ∈ t.entries, P e.2) ↔ ∀ name o, t.find? name = some o → P o :=
  ⟨fun h name _ ho => h (name, _) (Table.mem_entries_of_find? ho),
    fun h e he => h e.1 e.2 (Table.find?_of_mem_entries he)⟩

theorem contains_iff {t : Table String OptionSource} {name : String} :
    t.contains name = true ↔ ∃ o, t.find? name = some o := Option.isSome_iff_exists

/-- What every option of either side can be built from. -/
theorem can_both_iff : ((options c.npcOptions).Can sources package (grounded registry sources) ∧
    (options c.playerOptions).Can sources package (grounded registry sources)) ↔
      ∀ o, c.Has o → (option o).Can sources package (grounded registry sources) := by
  rw [can_options, can_options]
  have hnpc := forall_options_iff (t := c.npcOptions)
    (P := fun o => (option o).Can sources package (grounded registry sources))
  have hplayer := forall_options_iff (t := c.playerOptions)
    (P := fun o => (option o).Can sources package (grounded registry sources))
  rw [hnpc, hplayer]
  constructor
  · rintro ⟨hnpc, hplayer⟩ o ⟨name, ho⟩
    exact ho.elim (hnpc name o) (hplayer name o)
  · exact fun h => ⟨fun name o ho => h o ⟨name, .inl ho⟩, fun name o ho => h o ⟨name, .inr ho⟩⟩

/-- Pointers that lead to options of the other side. -/
theorem forall_pointers_iff {t others : Table String OptionSource} :
    (∀ e ∈ t.entries, ∀ pointer ∈ e.2.pointers, others.contains pointer = true) ↔
      ∀ name o, t.find? name = some o →
        ∀ pointer ∈ o.pointers, ∃ o', others.find? pointer = some o' := by
  simp only [contains_iff]
  exact forall_options_iff (P := fun o => ∀ pointer ∈ o.pointers,
    ∃ o', others.find? pointer = some o')

/-- A conversation can be built if and only if it has what it takes. -/
theorem can_draft_iff (id : ObjectId) :
    (c.draft registry id).Can sources package (grounded registry sources) ↔
      c.Buildable registry (Packages.compile registry sources) package := by
  rw [can_draft, flaw?_eq_none, forall_pointers_iff, forall_pointers_iff, ← and_assoc (b := (options
    c.playerOptions).Can _ _ _), can_both_iff, can_richText, can_each]
  simp only [contains_iff, can_option, can_event]
  constructor
  · rintro ⟨⟨hbegins, hfirst, hnpc, hplayer, hscreen⟩, hoptions, hquester, hfinal⟩
    refine ⟨hbegins, hfirst, hnpc, hplayer,
      fun name h => Option.isSome_iff_exists.1 (hscreen name h), ?_,
      fun o ho => (hoptions o ho).2.1, ?_⟩
    · rintro text (rfl | ⟨o, ho, rfl⟩)
      · exact hquester
      · exact (hoptions o ho).1
    · rintro raw (hraw | ⟨o, ho, hraw⟩)
      · exact hfinal raw hraw
      · exact (hoptions o ho).2.2 raw hraw
  · intro h
    exact ⟨⟨h.begins, h.first, h.npc, h.player,
        fun name hname => Option.isSome_iff_exists.2 (h.screen name hname)⟩,
      fun o ho => ⟨h.vars o.text (.inr ⟨o, ho, rfl⟩), h.conditions o ho,
        fun raw hraw => h.events raw (.inr ⟨o, ho, hraw⟩)⟩,
      h.vars _ (.inl rfl), fun raw hraw => h.events raw (.inl hraw)⟩

/-- After some definitions have been built, in this order, the draft of a conversation comes to a
conversation. -/
def ComesTo (registry : Registry) (sources : Sources) (order : List (Kind × ObjectId))
    (id : ObjectId) (c : ConversationSource) (talk : Conversation) : Prop :=
  ((c.draft registry id ()).run sources id.package (build registry sources [])
    (buildAlong registry sources order Workshop.empty)).1 = .ok talk

/-- Whenever the draft of a conversation is carried out, it comes to a conversation if and only if
it has what it takes. -/
theorem exists_comesTo_iff (order : List (Kind × ObjectId)) :
    (∃ talk, c.ComesTo registry sources order id talk) ↔
      c.Buildable registry (Packages.compile registry sources) id.package := by
  have hsound := (buildAlong_verdict order (Workshop.sound_empty registry sources)).1
  have hneed : ∀ n,
      (∃ a, (c.draft registry id ()).Succeeds sources id.package (stage registry sources n) a) →
      ∃ a, (c.draft registry id ()).Succeeds sources id.package (stage registry sources n) a :=
    fun _ h => h
  have hupshot := Plan.run_upshot (fun k' id' _ hw _ => build_verdict hw (Waits.nil k' id'))
    hsound hneed
  rw [← can_draft_iff id]
  constructor
  · rintro ⟨talk, htalk⟩
    exact ⟨talk, hupshot.ok talk htalk⟩
  · rintro ⟨talk, htalk⟩
    cases hrun : ((c.draft registry id ()).run sources id.package (build registry sources [])
        (buildAlong registry sources order Workshop.empty)).1 with
    | ok talk => exact ⟨talk, hrun⟩
    | error err =>
      -- The references that are made are answered at some stage, so that nothing can fail.
      have hstages : (c.draft registry id ()).Succeeds sources id.package
          (fun k id => { d | ∃ n, d ∈ stage registry sources n k id }) talk :=
        htalk.mono fun k id d hd => mem_grounded_iff_stage.1 hd
      obtain ⟨n, hn⟩ := hstages.exists_stage
      exact absurd ⟨talk, hn⟩ (hupshot.error err hrun n)

end ConversationSource

/-! ### What is there after compiling -/

variable {id : ObjectId}

/-- What is found under an identifier is what can be built there. -/
theorem compile_get {k : Kind} {d : k.Def} :
    (Packages.compile registry sources).get k id = .ok d ↔ d ∈ grounded registry sources k id := by
  rw [← compile_find?]
  refine ⟨Packages.find?_of_get, fun hfind => ?_⟩
  have hdeclares : sources.declares k id = true :=
    Sources.declares_iff_mem_declared.2 (mem_declared_of_grounded (compile_find?.1 hfind))
  have hcheck : (Packages.compile registry sources).sources.check k id = .ok () :=
    Sources.check_eq_ok_iff.2 hdeclares
  rw [Packages.get, hcheck, hfind]

/-- A conversation that is declared is there after compiling if and only if it has what it takes. -/
theorem compile_conversation_iff {c : ConversationSource} (hc : sources.conversation? id = some c) :
    (∃ talk, (Packages.compile registry sources).get .conversation id = .ok talk) ↔
      c.Buildable registry (Packages.compile registry sources) id.package := by
  rw [← ConversationSource.can_draft_iff id, exists_congr fun talk => compile_get,
    exists_grounded_conversation]
  refine ⟨fun ⟨c', hc', hcan⟩ => ?_, fun hcan => ⟨c, hc, hcan⟩⟩
  cases hc.symm.trans hc'
  exact hcan

/-! ### What is built is closed -/

/-- A conversation that leads nowhere amiss: its pointers lead to options, and the screen that it
names is registered. -/
structure Conversation.Guided (registry : Registry) (talk : Conversation) : Prop where
  closed : talk.Closed
  screen : ∀ name, talk.screen = some name → ∃ style, registry.screen? name = some style

namespace ConversationSource

open Draft

variable {S : Stock} {c : ConversationSource}

/-- Whatever its references are answered with, what the draft of a conversation comes to leads
nowhere amiss. -/
theorem gives_guided : (c.draft registry id).GivesFrom S (Conversation.Guided registry) := by
  unfold draft
  cases hflaw : c.flaw? fun name => (registry.screen? name).isSome with
  | some text => exact gives_fail _
  | none =>
    have hscreen := (flaw?_eq_none.1 hflaw).2.2.2.2
    have hany : ∀ o, (option o).GivesFrom S fun _ => True := fun _ => gives_trivial
    exact gives_bind (gives_options hany _) fun npc hn =>
      gives_bind (gives_options hany _) fun player hp =>
      gives_bind gives_trivial fun quester _ => gives_bind gives_trivial fun final _ =>
        gives_pure ⟨closed_of_built hflaw rfl hn hp,
          fun name h => Option.isSome_iff_exists.1 (hscreen name h)⟩

end ConversationSource

/-- Whatever the keywords are, a conversation leads nowhere amiss once it is built. -/
theorem compile_guided {talk : Conversation}
    (h : (Packages.compile registry sources).get .conversation id = .ok talk) :
    talk.Guided registry := by
  obtain ⟨line, plan, hblueprint, hsucceeds⟩ := mem_grounded_iff.1 (compile_get.1 h)
  cases blueprint?_eq_some_iff.1 hblueprint with
  | conversation => exact ConversationSource.gives_guided _ _ _ _ hsucceeds

end Questbook
