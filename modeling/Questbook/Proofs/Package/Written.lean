/-
Questbook/Proofs/Package/Written.lean

What is compiled is what its line says.

A definition that is there after compiling has a line, the line can be read, and the draft of its
kind has come to the definition with every reference answered by what can be built.  A reference is
answered by what its name is resolved to when all is compiled.  So what a keyword makes of
its arguments can be said in terms of the line and of the compiled packages alone.

Main results: `condition_written`, `event_written`, `objective_written` and `met_iff_resolve`.
-/
import Questbook.Proofs.Package.Partition
import Questbook.Proofs.Package.Vocabulary

namespace Questbook

variable {registry : Registry} {sources : Sources} {id : ObjectId}

/-! ### Lines -/

/-- A plan for a line succeeds as the draft does that reads the line. -/
theorem exists_line_of_linePlan {α : Type} {S : Stock} {draft : LineDraft α} {raw package : String}
    {a : α} (h : (linePlan id raw draft).Succeeds sources package S a) :
    ∃ line, Line.parse id raw = .ok line ∧ (draft line).Succeeds sources package S a := by
  unfold linePlan at h
  split at h
  · rename_i line hline
    exact ⟨line, hline, Plan.succeeds_forget.1 h⟩
  · exact h.elim

/-- What a draft makes of the line that is written for an identifier. -/
def Written {α : Type} (registry : Registry) (sources : Sources) (k : Kind) (id : ObjectId)
    (draft : LineDraft α) (a : α) : Prop :=
  ∃ raw line, sources.line? k id = some raw ∧ Line.parse id raw = .ok line ∧
    (draft line).Succeeds sources id.package (grounded registry sources) a

theorem written_of_get {k : Kind} {draft : LineDraft k.Def} {d : k.Def}
    (hblueprint : blueprint? registry sources k id =
      (sources.line? k id).map fun l => (some l, linePlan id l draft))
    (h : (Packages.compile registry sources).get k id = .ok d) :
    Written registry sources k id draft d := by
  obtain ⟨_, _, hplan, hsucceeds⟩ :=
    mem_grounded_iff.1 (compile_find?.1 (Packages.find?_of_get h))
  rw [hblueprint] at hplan
  obtain ⟨raw, hraw, heq⟩ := Option.map_eq_some_iff.1 hplan
  cases heq
  obtain ⟨line, hline, hdraft⟩ := exists_line_of_linePlan hsucceeds
  exact ⟨raw, line, hraw, hline, hdraft⟩

theorem condition_written {c : Condition}
    (h : (Packages.compile registry sources).get .condition id = .ok c) :
    Written registry sources .condition id registry.condition c := written_of_get rfl h

theorem event_written {event : Event}
    (h : (Packages.compile registry sources).get .event id = .ok event) :
    Written registry sources .event id registry.event event := written_of_get rfl h

theorem objective_written {definition : Objective}
    (h : (Packages.compile registry sources).get .objective id = .ok definition) :
    Written registry sources .objective id (registry.objective id) definition :=
  written_of_get rfl h

/-! ### Reading -/

namespace Line

variable {α : Type} {key : String} {l l' : Line}

/-- An option is taken from the arguments of a line and leaves its keyword. -/
theorem keyword_optional {value : Option String} (h : l.read (optional key) = (.ok value, l')) :
    l'.keyword = l.keyword := by
  obtain ⟨_, _, hget, h⟩ := exists_of_read_bind h
  cases hget
  split at h
  · obtain ⟨_, _, hset, h⟩ := exists_of_read_bind h
    cases hset
    cases h
    rfl
  · cases h
    rfl

theorem keyword_optionalList {names : List String}
    (h : l.read (optionalList key) = (.ok names, l')) : l'.keyword = l.keyword := by
  obtain ⟨value, l₁, hoptional, h⟩ := exists_of_read_bind h
  have hkeyword := keyword_optional hoptional
  cases value <;> cases h <;> exact hkeyword

end Line

/-! ### Drafts -/

namespace Plan

variable {σ α β γ : Type} {sources : Sources} {package : String} {S : Stock} {R R' : σ → Prop}

theorem bind_assoc {plan : Plan σ α} {f : α → σ → Plan σ β} {g : β → σ → Plan σ γ} :
    (plan.bind f).bind g = plan.bind fun a s => (f a s).bind g := by
  induction plan with
  | done | fail => rfl
  | refer r s next ih =>
    show refer r s (fun t => ((next t).bind f).bind g) = refer r s fun t => (next t).bind _
    rw [funext ih]

/-- Wherever a plan comes to an answer, `R` holds of what it leaves of what it has read from. -/
def Leaves (R : σ → Prop) : Plan σ α → Prop
  | done _ s => R s
  | fail _ _ => True
  | refer _ _ next => ∀ t, (next t).Leaves R

theorem Leaves.bind {plan : Plan σ α} {f : α → σ → Plan σ β} (h : plan.Leaves R)
    (hf : ∀ a s, R s → (f a s).Leaves R') : (plan.bind f).Leaves R' := by
  induction plan with
  | done a s => exact hf a s h
  | fail => trivial
  | refer r s next ih => exact fun t => ih t (h t)

/-- A reference does not touch what is read from. -/
theorem leaves_refer (r : Reference) (x : σ) : (Draft.refer r x).Leaves (· = x) := fun _ => rfl

theorem leaves_each {r : γ → Draft σ α} (hr : ∀ c x, (r c x).Leaves (· = x)) (cs : List γ) (x : σ) :
    (Draft.each r cs x).Leaves (· = x) := by
  induction cs generalizing x with
  | nil => rfl
  | cons c rest ih =>
    refine (hr c x).bind fun a y hy => ?_
    subst hy
    exact (ih y).bind fun as z hz => hz

/-- A reference is answered by what it means. -/
theorem met_of_refer {r : Reference} {x : σ} {t : r.Target}
    (h : (Draft.refer r x).Succeeds sources package S t) : r.Met sources package S t := by
  obtain ⟨t', hmet, rfl⟩ := h
  exact hmet

/-- What comes after a plan goes on with what the plan has left. -/
theorem exists_of_succeeds_bind_of_leaves {plan : Plan σ α} {f : α → σ → Plan σ β} {b : β}
    (hR : plan.Leaves R) (h : (plan.bind f).Succeeds sources package S b) :
    ∃ a s, R s ∧ plan.Succeeds sources package S a ∧ (f a s).Succeeds sources package S b := by
  induction plan with
  | done a s => exact ⟨a, s, hR, rfl, h⟩
  | fail => exact h.elim
  | refer r s next ih =>
    obtain ⟨t, hmet, hnext⟩ := h
    obtain ⟨a, s, hs, ha, hb⟩ := ih t (hR t) hnext
    exact ⟨a, s, hs, ⟨t, hmet, ha⟩, hb⟩

/-- What is read first is what the line gives, and the rest goes on with what is left of it. -/
theorem exists_of_succeeds_read {r : Line.Reader α} {f : α → LineDraft β} {line : Line} {b : β}
    (h : ((Draft.read r >>= f) line).Succeeds sources package S b) :
    ∃ a line', line.read r = (.ok a, line') ∧ (f a line').Succeeds sources package S b := by
  have h : ((Draft.read r line).bind f).Succeeds sources package S b := h
  unfold Draft.read at h
  split at h
  · rename_i a line' hread
    exact ⟨a, line', hread, h⟩
  · exact h.elim

/-- References made one after another are answered one by one. -/
theorem forall₂_of_succeeds_each {r : γ → Draft σ α} {T : γ → α → Prop}
    (hT : ∀ c x a, (r c x).Succeeds sources package S a → T c a) {cs : List γ} {x : σ}
    {as : List α} (h : (Draft.each r cs x).Succeeds sources package S as) :
    List.Forall₂ T cs as := by
  induction cs generalizing x as with
  | nil =>
    cases h
    exact .nil
  | cons c rest ih =>
    obtain ⟨a, y, ha, h⟩ := exists_of_succeeds_bind h
    obtain ⟨as, z, hrest, h⟩ := exists_of_succeeds_bind h
    cases h
    exact .cons (hT c x a ha) (ih hrest)

/-- What comes after references goes on with all that the line has left. -/
theorem exists_of_succeeds_each {r : γ → Draft σ α} {T : γ → α → Prop} {f : List α → Draft σ β}
    {cs : List γ} {x : σ} {b : β} (hr : ∀ c x, (r c x).Leaves (· = x))
    (hT : ∀ c x a, (r c x).Succeeds sources package S a → T c a)
    (h : ((Draft.each r cs >>= f) x).Succeeds sources package S b) :
    ∃ as, List.Forall₂ T cs as ∧ (f as x).Succeeds sources package S b := by
  obtain ⟨as, y, rfl, has, h⟩ := exists_of_succeeds_bind_of_leaves (leaves_each hr cs x) h
  exact ⟨as, forall₂_of_succeeds_each hT has, h⟩

/-- Where a definition can be changed there is one. -/
theorem exists_of_succeeds_map {f : α → β} {draft : Draft σ α} {x : σ} {b : β}
    (h : ((f <$> draft) x).Succeeds sources package S b) :
    ∃ a, (draft x).Succeeds sources package S a ∧ f a = b := by
  obtain ⟨a, y, ha, h⟩ := exists_of_succeeds_bind h
  exact ⟨a, ha, h⟩

end Plan

theorem Draft.bind_assoc {σ α β γ : Type} (draft : Draft σ α) (f : α → Draft σ β)
    (g : β → Draft σ γ) : draft >>= f >>= g = draft >>= fun a => f a >>= g :=
  funext fun _ => Plan.bind_assoc

namespace Registry

variable {S : Stock} {package : String} {line : Line}

/-- A line whose keyword is known is left as it is. -/
theorem exists_of_known {α β : Type} {k : Kind} {drafts : Table String (LineDraft α)}
    {f : Unit → LineDraft β} {b : β}
    (h : ((known k drafts >>= f) line).Succeeds sources package S b) :
    (f () line).Succeeds sources package S b := by
  have h : ((known k drafts line).bind f).Succeeds sources package S b := h
  unfold known at h
  split at h
  · exact h
  · exact h.elim

/-- The conditions that a line lists, and what is left of it. -/
theorem exists_of_gate {β : Type} {f : List ConditionRef → LineDraft β} {b : β}
    (h : ((gate >>= f) line).Succeeds sources package S b) :
    ∃ names rest conditions, line.read (Line.optionalList "conditions") = (.ok names, rest) ∧
      List.Forall₂ (fun name c => (Reference.condition name).Met sources package S c) names
        conditions ∧
      (f conditions rest).Succeeds sources package S b := by
  rw [gate, Draft.bind_assoc] at h
  obtain ⟨names, rest, hread, h⟩ := Plan.exists_of_succeeds_read h
  obtain ⟨conditions, hconditions, h⟩ := Plan.exists_of_succeeds_each
    (fun name => Plan.leaves_refer (.condition name)) (fun _ _ _ => Plan.met_of_refer) h
  exact ⟨names, rest, conditions, hread, hconditions, h⟩

/-- What an event is made of: the conditions that its line lists, and what its keyword makes of what
is left of the line. -/
theorem exists_of_event {event : Event}
    (h : (registry.event line).Succeeds sources package S event) :
    ∃ names rest, line.read (Line.optionalList "conditions") = (.ok names, rest) ∧
      rest.keyword = line.keyword ∧
      List.Forall₂ (fun name c => (Reference.condition name).Met sources package S c) names
        event.conditions ∧
      (byKeyword .event registry.events rest).Succeeds sources package S event.content := by
  obtain ⟨names, rest, conditions, hread, hconditions, h⟩ := exists_of_gate (exists_of_known h)
  obtain ⟨content, s, hcontent, h⟩ := Plan.exists_of_succeeds_bind h
  cases h
  exact ⟨names, rest, hread, Line.keyword_optionalList hread, hconditions, hcontent⟩

/-- What an objective is made of: the conditions and the events that its line lists, and what its
keyword makes of what is left of the line. -/
theorem exists_of_objective {definition : Objective}
    (h : (registry.objective id line).Succeeds sources package S definition) :
    ∃ names left events rest, line.read (Line.optionalList "conditions") = (.ok names, left) ∧
      left.read (Line.optionalList "events") = (.ok events, rest) ∧
      rest.keyword = line.keyword ∧
      List.Forall₂ (fun name c => (Reference.condition name).Met sources package S c) names
        definition.conditions ∧
      List.Forall₂ (fun name e => (Reference.event name).Met sources package S e) events
        definition.events ∧
      (byKeyword .objective registry.goals rest).Succeeds sources package S definition.goal := by
  obtain ⟨names, left, conditions, hread, hconditions, h⟩ := exists_of_gate (exists_of_known h)
  obtain ⟨raws, rest, hevents, h⟩ := Plan.exists_of_succeeds_read h
  obtain ⟨events, hmet, h⟩ := Plan.exists_of_succeeds_each
    (fun name => Plan.leaves_refer (.event name)) (fun _ _ _ => Plan.met_of_refer) h
  obtain ⟨goal, s, hgoal, h⟩ := Plan.exists_of_succeeds_bind h
  cases h
  have hkeyword := (Line.keyword_optionalList hevents).trans (Line.keyword_optionalList hread)
  exact ⟨names, left, raws, rest, hread, hevents, hkeyword, hconditions, hmet, hgoal⟩

end Registry

/-- A reference is answered by what its name is resolved to when all is compiled. -/
theorem met_iff_resolve {r : Reference} {l : Lead r.Target} {raw package : String} {t : r.Target}
    (hlead : r.lead? = some l) (hname : (l.kind.read raw).2 = l.name) :
    r.Met sources package (grounded registry sources) t ↔
      ∃ d, (Packages.compile registry sources).resolve raw l.kind package = .ok d ∧
        t = l.give d.id d.target := by
  refine (Reference.met_of_lead hlead).trans ⟨?_, ?_⟩
  · rintro ⟨id, d, hlocate, hd, rfl⟩
    rw [← hname] at hlocate
    exact ⟨⟨id, (l.kind.read raw).1, d⟩,
      compile_resolve_eq_ok_iff.2 ⟨hlocate, rfl, compile_find?.2 hd⟩, rfl⟩
  · rintro ⟨d, hresolve, rfl⟩
    obtain ⟨hlocate, -, hfind⟩ := compile_resolve_eq_ok_iff.1 hresolve
    rw [hname] at hlocate
    exact ⟨d.id, d.target, hlocate, compile_find?.1 hfind, rfl⟩

theorem event_met_iff_resolve {raw package : String} {event : EventRef} :
    (Reference.event raw).Met sources package (grounded registry sources) event ↔
      ∃ d, (Packages.compile registry sources).resolve raw .event package = .ok d ∧
        event = ⟨d.id, d.target⟩ :=
  met_iff_resolve (r := .event raw) (t := event) rfl rfl

theorem condition_met_iff_resolve {raw package : String} {c : ConditionRef} :
    (Reference.condition raw).Met sources package (grounded registry sources) c ↔
      ((Packages.compile registry sources).resolve raw .condition package).map
        Resolved.conditionRef = .ok c := by
  refine (met_iff_resolve (r := .condition raw) (t := c) rfl rfl).trans ⟨?_, ?_⟩
  · rintro ⟨⟨id, negated, target⟩, hresolve, rfl⟩
    obtain ⟨-, hnegated, -⟩ := compile_resolve_eq_ok_iff.1 hresolve
    obtain rfl : negated = (stripNegation raw).1 := hnegated
    rw [hresolve]
    rfl
  · intro h
    cases hresolve : (Packages.compile registry sources).resolve raw .condition package with
    | error e =>
      rw [hresolve] at h
      cases h
    | ok d =>
      rw [hresolve] at h
      cases h
      obtain ⟨-, hnegated, -⟩ := compile_resolve_eq_ok_iff.1 hresolve
      obtain ⟨id, negated, target⟩ := d
      obtain rfl : negated = (stripNegation raw).1 := hnegated
      exact ⟨_, rfl, rfl⟩

end Questbook
