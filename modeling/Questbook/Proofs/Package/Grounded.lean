/-
Questbook/Proofs/Package/Grounded.lean

The well-founded definitions of packages.

A definition can be built if its plan succeeds where every reference it makes is answered by a
definition that can be built.  `grow` takes a stock of definitions to those whose plans succeed with
the references answered from the stock, and `grounded` is its least fixed point: a definition on a
reference cycle, or above one, is not in it, since nothing could have been there first.  A reference
to an objective asks for nothing but that the objective is declared.

The stock is also built up in stages, the first of them empty, so that what a definition refers to
is grounded at an earlier stage than the definition.  A plan whose references are answered one way
has one answer, so that at most one definition is grounded under a name.
-/
import Mathlib.Order.FixedPoints
import Mathlib.Order.CompletePartialOrder
import Questbook.Package.Compiled

namespace Questbook

/-- Definitions that are there to be referred to, by kind and identifier. -/
abbrev Stock := (k : Kind) → ObjectId → Set k.Def

/-! ### References -/

/-- Where a reference leads, and what it makes of the definition that is found there. -/
structure Lead (α : Type) where
  kind : Kind
  name : String
  give : ObjectId → kind.Def → α

namespace Reference

/-- Where a reference leads; one to an objective is a name only. -/
def lead? : (r : Reference) → Option (Lead r.Target)
  | condition raw =>
    some ⟨.condition, (stripNegation raw).2, fun id d => ⟨id, (stripNegation raw).1, d⟩⟩
  | event raw => some ⟨.event, raw, fun id d => ⟨id, d⟩⟩
  | var raw => some ⟨.var, raw, fun id d => ⟨id, d⟩⟩
  | item raw => some ⟨.item, raw, fun _ d => d⟩
  | objective _ => none

theorem lead_or_objective (r : Reference) :
    (∃ l, r.lead? = some l) ∨ ∃ raw, r = .objective raw := by
  cases r with
  | objective raw => exact .inr ⟨raw, rfl⟩
  | _ => exact .inl ⟨_, rfl⟩

/-- A stock answers a reference that is written in a package. -/
inductive Met (sources : Sources) (package : String) (s : Stock) :
    (r : Reference) → r.Target → Prop
  | found {r : Reference} {l : Lead r.Target} {id : ObjectId} {d : l.kind.Def}
      (hlead : r.lead? = some l) (hlocate : sources.locate l.name l.kind package = .ok id)
      (hd : d ∈ s l.kind id) : Met sources package s r (l.give id d)
  | declared {raw : String} {id : ObjectId}
      (hlocate : sources.locate raw .objective package = .ok id) :
      Met sources package s (.objective raw) id

variable {sources : Sources} {package : String} {s s' : Stock} {r : Reference} {l : Lead r.Target}

theorem met_of_lead {t : r.Target} (hlead : r.lead? = some l) : r.Met sources package s t ↔
    ∃ id d, sources.locate l.name l.kind package = .ok id ∧ d ∈ s l.kind id ∧ t = l.give id d := by
  refine ⟨fun h => ?_, fun h => ?_⟩
  · cases h with
    | found hlead' hlocate hd =>
      rw [hlead] at hlead'
      cases hlead'
      exact ⟨_, _, hlocate, hd, rfl⟩
    | declared => cases hlead
  · obtain ⟨id, d, hlocate, hd, rfl⟩ := h
    exact .found hlead hlocate hd

theorem Met.mono {t : r.Target} (h : r.Met sources package s t) (hs : s ≤ s') :
    r.Met sources package s' t := by
  cases h with
  | found hlead hlocate hd => exact .found hlead hlocate (hs _ _ hd)
  | declared hlocate => exact .declared hlocate

/-- Stocks that agree where both have a definition answer a reference the same way. -/
theorem Met.unique {t t' : r.Target} (h : r.Met sources package s t)
    (h' : r.Met sources package s' t')
    (hagree : ∀ k id, ∀ d ∈ s k id, ∀ d' ∈ s' k id, d = d') : t = t' := by
  cases h with
  | found hlead hlocate hd =>
    obtain ⟨id', d', hlocate', hd', rfl⟩ := (met_of_lead hlead).1 h'
    rw [hlocate] at hlocate'
    cases hlocate'
    rw [hagree _ _ _ hd _ hd']
  | declared hlocate =>
    cases h' with
    | found hlead' => cases hlead'
    | declared hlocate' =>
      rw [hlocate] at hlocate'
      cases hlocate'
      rfl

end Reference

/-! ### Plans -/

namespace Plan

variable {σ α : Type} {sources : Sources} {package : String} {s s' : Stock}

/-- A plan comes to an answer with its references answered from a stock. -/
def Succeeds (sources : Sources) (package : String) (s : Stock) : Plan σ α → α → Prop
  | done a _, b => a = b
  | fail _ _, _ => False
  | refer r _ next, b => ∃ t, r.Met sources package s t ∧ (next t).Succeeds sources package s b

theorem Succeeds.mono {plan : Plan σ α} {a : α} (h : plan.Succeeds sources package s a)
    (hs : s ≤ s') : plan.Succeeds sources package s' a := by
  induction plan with
  | done => exact h
  | fail => exact h
  | refer r _ next ih =>
    obtain ⟨t, hmet, hnext⟩ := h
    exact ⟨t, hmet.mono hs, ih t hnext⟩

theorem Succeeds.unique {plan : Plan σ α} {a a' : α} (h : plan.Succeeds sources package s a)
    (h' : plan.Succeeds sources package s' a')
    (hagree : ∀ k id, ∀ d ∈ s k id, ∀ d' ∈ s' k id, d = d') : a = a' := by
  induction plan with
  | done => exact h.symm.trans h'
  | fail => exact h.elim
  | refer r _ next ih =>
    obtain ⟨t, hmet, hnext⟩ := h
    obtain ⟨t', hmet', hnext'⟩ := h'
    obtain rfl := hmet.unique hmet' hagree
    exact ih t hnext hnext'

end Plan

/-! ### Blueprints -/

variable (registry : Registry) (sources : Sources)

/-- The plan of a declared definition: a draft that is carried out on its line, or the draft of a
conversation. -/
inductive Blueprint : (k : Kind) → ObjectId → Option String → Plan Unit k.Def → Prop
  | condition {id : ObjectId} {l : String} (hline : sources.line? .condition id = some l) :
      Blueprint .condition id (some l) (linePlan id l registry.condition)
  | event {id : ObjectId} {l : String} (hline : sources.line? .event id = some l) :
      Blueprint .event id (some l) (linePlan id l registry.event)
  | objective {id : ObjectId} {l : String} (hline : sources.line? .objective id = some l) :
      Blueprint .objective id (some l) (linePlan id l (registry.objective id))
  | var {id : ObjectId} {l : String} (hline : sources.line? .var id = some l) :
      Blueprint .var id (some l) (linePlan id l registry.var)
  | item {id : ObjectId} {l : String} (hline : sources.line? .item id = some l) :
      Blueprint .item id (some l) (linePlan id l Registry.item)
  | conversation {id : ObjectId} {c : ConversationSource}
      (hsource : sources.conversation? id = some c) :
      Blueprint .conversation id none (c.draft registry id ())

variable {registry sources} in
theorem blueprint?_eq_some_iff {k : Kind} {id : ObjectId} {line : Option String}
    {plan : Plan Unit k.Def} : blueprint? registry sources k id = some (line, plan) ↔
      Blueprint registry sources k id line plan := by
  refine ⟨fun h => ?_, fun h => ?_⟩
  · cases k <;>
    · obtain ⟨_, hdeclared, heq⟩ := Option.map_eq_some_iff.1 h
      cases heq
      constructor
      exact hdeclared
  · cases h with
    | condition h | event h | objective h | var h | item h | conversation h =>
      simp only [blueprint?, h, Option.map_some]

/-! ### The least fixed point -/

/-- The definitions whose plans succeed with the references answered from a stock. -/
def grow : Stock →o Stock where
  toFun s k id := { d | ∃ line plan, blueprint? registry sources k id = some (line, plan) ∧
    plan.Succeeds sources id.package s d }
  monotone' := by
    intro s s' hs k id d hd
    obtain ⟨line, plan, hblueprint, hsucceeds⟩ := hd
    exact ⟨line, plan, hblueprint, hsucceeds.mono hs⟩

/-- The definitions that can be built. -/
def grounded : Stock := OrderHom.lfp (grow registry sources)

/-- What can be built in so many stages. -/
def stage : Nat → Stock
  | 0 => ⊥
  | n + 1 => grow registry sources (stage n)

variable {registry sources}

/-- From what is grounded nothing else can be built. -/
theorem grow_grounded (registry : Registry) (sources : Sources) :
    grow registry sources (grounded registry sources) = grounded registry sources :=
  OrderHom.map_lfp (grow registry sources)

/-- A definition is grounded if and only if its plan succeeds with what is grounded. -/
theorem mem_grounded_iff {k : Kind} {id : ObjectId} {d : k.Def} :
    d ∈ grounded registry sources k id ↔ ∃ line plan,
      blueprint? registry sources k id = some (line, plan) ∧
        plan.Succeeds sources id.package (grounded registry sources) d := by
  have hgrow : d ∈ grow registry sources (grounded registry sources) k id ↔ ∃ line plan,
      blueprint? registry sources k id = some (line, plan) ∧
        plan.Succeeds sources id.package (grounded registry sources) d := Iff.rfl
  rwa [grow_grounded] at hgrow

theorem stage_le_succ (n : Nat) : stage registry sources n ≤ stage registry sources (n + 1) := by
  induction n with
  | zero => exact bot_le
  | succ n ih => exact (grow registry sources).monotone ih

theorem stage_mono {m n : Nat} (h : m ≤ n) : stage registry sources m ≤ stage registry sources n :=
  monotone_nat_of_le_succ stage_le_succ h

theorem stage_le_grounded (n : Nat) : stage registry sources n ≤ grounded registry sources := by
  induction n with
  | zero => exact bot_le
  | succ n ih =>
    calc stage registry sources (n + 1)
        ≤ grow registry sources (grounded registry sources) := (grow registry sources).monotone ih
      _ = grounded registry sources := grow_grounded registry sources

/-- A plan makes finitely many references, so that some stage answers all of them. -/
theorem Plan.Succeeds.exists_stage {σ α : Type} {package : String} {plan : Plan σ α} {a : α}
    (h : plan.Succeeds sources package
      (fun k id => { d | ∃ n, d ∈ stage registry sources n k id }) a) :
    ∃ n, plan.Succeeds sources package (stage registry sources n) a := by
  induction plan with
  | done => exact ⟨0, h⟩
  | fail => exact h.elim
  | refer r _ next ih =>
    obtain ⟨t, hmet, hnext⟩ := h
    obtain ⟨n, hn⟩ := ih t hnext
    obtain ⟨m, hm⟩ : ∃ m, r.Met sources package (stage registry sources m) t := by
      cases hmet with
      | found hlead hlocate hd =>
        obtain ⟨m, hm⟩ := hd
        exact ⟨m, .found hlead hlocate hm⟩
      | declared hlocate => exact ⟨0, .declared hlocate⟩
    exact ⟨max m n, t, hm.mono (stage_mono (le_max_left m n)),
      hn.mono (stage_mono (le_max_right m n))⟩

/-- What is grounded is so at some stage. -/
theorem mem_grounded_iff_stage {k : Kind} {id : ObjectId} {d : k.Def} :
    d ∈ grounded registry sources k id ↔ ∃ n, d ∈ stage registry sources n k id := by
  refine ⟨fun h => ?_, fun ⟨n, h⟩ => stage_le_grounded n k id h⟩
  -- All stages together are a stock from which nothing else can be built.
  have hle : grounded registry sources ≤
      fun k id => { d | ∃ n, d ∈ stage registry sources n k id } := by
    refine OrderHom.lfp_le _ ?_
    intro k id d hd
    obtain ⟨line, plan, hblueprint, hsucceeds⟩ := hd
    obtain ⟨n, hn⟩ := hsucceeds.exists_stage
    exact ⟨n + 1, line, plan, hblueprint, hn⟩
  exact hle k id h

theorem stage_unique {m n : Nat} {k : Kind} {id : ObjectId} {d d' : k.Def}
    (h : d ∈ stage registry sources m k id) (h' : d' ∈ stage registry sources n k id) : d = d' := by
  induction m generalizing n k id with
  | zero => exact h.elim
  | succ m ih =>
    cases n with
    | zero => exact h'.elim
    | succ n =>
      obtain ⟨line, plan, hblueprint, hsucceeds⟩ := h
      obtain ⟨line', plan', hblueprint', hsucceeds'⟩ := h'
      rw [hblueprint] at hblueprint'
      cases hblueprint'
      exact hsucceeds.unique hsucceeds' fun k id d hd d' hd' => ih hd hd'

/-- At most one definition is grounded under a name. -/
theorem grounded_unique {k : Kind} {id : ObjectId} {d d' : k.Def}
    (h : d ∈ grounded registry sources k id) (h' : d' ∈ grounded registry sources k id) :
    d = d' := by
  obtain ⟨m, hm⟩ := mem_grounded_iff_stage.1 h
  obtain ⟨n, hn⟩ := mem_grounded_iff_stage.1 h'
  exact stage_unique hm hn

/-- What would have to be there before it is there is not grounded. -/
theorem not_grounded_of_earlier {k : Kind} {id : ObjectId}
    (h : ∀ n, (∃ d, d ∈ stage registry sources n k id) →
      ∃ m, m < n ∧ ∃ d, d ∈ stage registry sources m k id) (d : k.Def) :
    d ∉ grounded registry sources k id := by
  have hnever : ∀ n, ¬ ∃ d, d ∈ stage registry sources n k id := by
    intro n
    induction n using Nat.strong_induction_on with
    | _ n ih =>
      intro hn
      obtain ⟨m, hm, hstage⟩ := h n hn
      exact ih m hm hstage
  intro hd
  obtain ⟨n, hn⟩ := mem_grounded_iff_stage.1 hd
  exact hnever n ⟨d, hn⟩

end Questbook
