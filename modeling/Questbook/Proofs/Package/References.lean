/-
Questbook/Proofs/Package/References.lean

What a definition owes to the definitions that it reaches through references.

A definition refers to another if its plan asks for it, with whatever it asked for before answered
by what is grounded (`Refers`).  Two sets of packages that declare the same names and differ in some
definitions only have the same definitions grounded outside of those from which one of them can be
reached (`grounded_eq_of_agreeOff`): whether a definition fails, and what it says otherwise, is seen
by nothing else.

What a grounded definition refers to is grounded at an earlier stage, so that no chain of references
from it ever closes.
-/
import Mathlib.Logic.Relation
import Questbook.Proofs.Package.Grounded

namespace Questbook

/-! ### Names -/

namespace Sources

variable {s : Sources} {k : Kind} {id : ObjectId}

theorem check_eq_ok_iff : s.check k id = .ok () ↔ s.declares k id = true := by
  unfold check declares
  cases s.packages.find? id.package with
  | none => simp
  | some p =>
    by_cases hp : p.declares k id.name = true
    · simp [hp]
    · simp only [hp]
      cases Kind.all.find? fun other => other ≠ k ∧ p.declares other id.name <;> simp

/-- A name leads to the identifier it stands for, where that is declared. -/
theorem locate_eq_ok_iff {raw current : String} : s.locate raw k current = .ok id ↔
    ObjectId.qualify raw current = id ∧ s.declares k id = true := by
  rw [← check_eq_ok_iff]
  have hlocate : s.locate raw k current = (s.check k (ObjectId.qualify raw current)).map fun _ =>
      ObjectId.qualify raw current := rfl
  rw [hlocate]
  refine ⟨fun h => ?_, fun ⟨hid, hok⟩ => ?_⟩
  · cases hcheck : s.check k (ObjectId.qualify raw current) with
    | error e =>
      rw [hcheck] at h
      cases h
    | ok u =>
      rw [hcheck] at h
      obtain rfl : ObjectId.qualify raw current = id := Except.ok.inj h
      exact ⟨rfl, hcheck⟩
  · rw [hid, hok]
    rfl

/-- Packages that declare the same names, and in which the same is written for every definition but
some. -/
structure AgreeOff (F : Set (Kind × ObjectId)) (s s' : Sources) : Prop where
  declares : ∀ k id, s.declares k id = s'.declares k id
  line : ∀ k id, (k, id) ∉ F → s.line? k id = s'.line? k id
  conversation : ∀ id, (.conversation, id) ∉ F → s.conversation? id = s'.conversation? id

end Sources

/-! ### What a plan asks for -/

/-- A reference that is written in a package leads to a declared definition. -/
def Reference.LeadsTo (sources : Sources) (package : String) (r : Reference)
    (x : Kind × ObjectId) : Prop :=
  ∃ l, r.lead? = some l ∧ l.kind = x.1 ∧ sources.locate l.name l.kind package = .ok x.2

/-- A plan asks for a definition, with its references before that answered from a stock. -/
def Plan.Asks {σ α : Type} (sources : Sources) (package : String) (s : Stock) :
    Plan σ α → Kind × ObjectId → Prop
  | done _ _, _ => False
  | fail _ _, _ => False
  | refer r _ next, x => r.LeadsTo sources package x ∨
      ∃ t, r.Met sources package s t ∧ (next t).Asks sources package s x

/-- A definition makes a reference to another. -/
def Refers (registry : Registry) (sources : Sources) (x y : Kind × ObjectId) : Prop :=
  ∃ line plan, blueprint? registry sources x.1 x.2 = some (line, plan) ∧
    plan.Asks sources x.2.package (grounded registry sources) y

section

variable {sources sources' : Sources} {package : String} {s s' m : Stock}

theorem Reference.Met.of_declares {r : Reference} {t : r.Target} (h : r.Met sources package s t)
    (hsame : ∀ k id, sources.declares k id = sources'.declares k id) :
    r.Met sources' package s t := by
  have hlocate : ∀ {raw k id}, sources.locate raw k package = .ok id →
      sources'.locate raw k package = .ok id := by
    intro raw k id h
    rw [Sources.locate_eq_ok_iff] at h ⊢
    exact ⟨h.1, hsame k id ▸ h.2⟩
  cases h with
  | found hlead hok hd => exact .found hlead (hlocate hok) hd
  | declared hok => exact .declared (hlocate hok)

/-- A plan sees of the packages only what they declare. -/
theorem Plan.Succeeds.of_declares {σ α : Type} {plan : Plan σ α} {a : α}
    (h : plan.Succeeds sources package s a)
    (hsame : ∀ k id, sources.declares k id = sources'.declares k id) :
    plan.Succeeds sources' package s a := by
  induction plan with
  | done => exact h
  | fail => exact h
  | refer r _ next ih =>
    obtain ⟨t, hmet, hnext⟩ := h
    exact ⟨t, hmet.of_declares hsame, ih t hnext⟩

/-- Another stock that has all there was of what a plan asks for serves it as well.  What is asked
for may be told from a third stock. -/
theorem Plan.Succeeds.transfer {σ α : Type} {plan : Plan σ α} {a : α}
    (h : plan.Succeeds sources package s a)
    (hs : ∀ k id, plan.Asks sources package m (k, id) → s k id ⊆ m k id ∧ s k id ⊆ s' k id) :
    plan.Succeeds sources package s' a := by
  induction plan with
  | done => exact h
  | fail => exact h
  | refer r _ next ih =>
    obtain ⟨t, hmet, hnext⟩ := h
    have hmet' : r.Met sources package m t ∧ r.Met sources package s' t := by
      cases hmet with
      | @found _ l id d hlead hlocate hd =>
        obtain ⟨hm, hs'⟩ := hs l.kind id (.inl ⟨l, hlead, rfl, hlocate⟩)
        exact ⟨.found hlead hlocate (hm hd), .found hlead hlocate (hs' hd)⟩
      | declared hlocate => exact ⟨.declared hlocate, .declared hlocate⟩
    exact ⟨t, hmet'.2, ih t hnext fun k id hasks => hs k id (.inr ⟨t, hmet'.1, hasks⟩)⟩

/-- A plan that succeeds has found whatever it asks for. -/
theorem Plan.Succeeds.exists_of_asks {σ α : Type} {plan : Plan σ α} {a : α}
    (h : plan.Succeeds sources package s a)
    (hagree : ∀ k id, ∀ d ∈ s k id, ∀ d' ∈ m k id, d = d') {k : Kind} {id : ObjectId}
    (hasks : plan.Asks sources package m (k, id)) : ∃ d, d ∈ s k id := by
  induction plan with
  | done => exact hasks.elim
  | fail => exact hasks.elim
  | refer r _ next ih =>
    obtain ⟨t, hmet, hnext⟩ := h
    rcases hasks with ⟨l, hlead, hkind, hlocate⟩ | ⟨t', hmet', hasks⟩
    · obtain ⟨id', d, hlocate', hd, -⟩ := (Reference.met_of_lead hlead).1 hmet
      rw [hlocate] at hlocate'
      cases hlocate'
      subst hkind
      exact ⟨d, hd⟩
    · obtain rfl := hmet.unique hmet' hagree
      exact ih t hnext hasks

end

/-! ### Locality -/

variable {registry : Registry} {sources sources' : Sources} {F : Set (Kind × ObjectId)}

theorem Sources.AgreeOff.blueprint?_eq (h : sources.AgreeOff F sources') {k : Kind} {id : ObjectId}
    (hfree : (k, id) ∉ F) :
    blueprint? registry sources k id = blueprint? registry sources' k id := by
  cases k with
  | conversation => simp only [blueprint?, h.conversation id hfree]
  | _ => simp only [blueprint?, h.line _ id hfree]

/-- A definition from which none of some definitions can be reached through references. -/
def Clear (registry : Registry) (sources : Sources) (F : Set (Kind × ObjectId))
    (x : Kind × ObjectId) : Prop :=
  ∀ y ∈ F, ¬ Relation.ReflTransGen (Refers registry sources) x y

theorem Clear.not_mem {x : Kind × ObjectId} (h : Clear registry sources F x) : x ∉ F :=
  fun hx => h x hx .refl

theorem Clear.of_refers {x y : Kind × ObjectId} (h : Clear registry sources F x)
    (hrefers : Refers registry sources x y) : Clear registry sources F y :=
  fun z hz hyz => h z hz (.head hrefers hyz)

theorem Sources.AgreeOff.refl (F : Set (Kind × ObjectId)) (s : Sources) : s.AgreeOff F s :=
  ⟨fun _ _ => rfl, fun _ _ _ => rfl, fun _ _ => rfl⟩

section

variable {src dst : Sources} (hsrc : sources.AgreeOff F src) (hdst : sources.AgreeOff F dst)

include hsrc hdst

/-- What can be built from a stock in one of two sets of packages can be built in the other, from a
stock that has of clear definitions all that the first one has. -/
theorem Clear.grow_subset {k : Kind} {id : ObjectId} {s t : Stock}
    (h : Clear registry sources F (k, id))
    (hs : ∀ k id, Clear registry sources F (k, id) →
      s k id ⊆ grounded registry sources k id ∧ s k id ⊆ t k id) :
    grow registry src s k id ⊆ grow registry dst t k id := by
  intro d hd
  obtain ⟨line, plan, hblueprint, hsucceeds⟩ := hd
  rw [← hsrc.blueprint?_eq h.not_mem] at hblueprint
  have hasked : plan.Succeeds sources id.package s d :=
    hsucceeds.of_declares fun k id => (hsrc.declares k id).symm
  have hanswered : plan.Succeeds sources id.package t d :=
    hasked.transfer fun k' id' hasks => hs k' id' (h.of_refers ⟨line, plan, hblueprint, hasks⟩)
  rw [hdst.blueprint?_eq h.not_mem] at hblueprint
  exact ⟨line, plan, hblueprint, hanswered.of_declares hdst.declares⟩

theorem Clear.stage_subset (n : Nat) {k : Kind} {id : ObjectId}
    (h : Clear registry sources F (k, id)) :
    stage registry src n k id ⊆ grounded registry sources k id ∧
      stage registry src n k id ⊆ grounded registry dst k id := by
  induction n generalizing k id with
  | zero => exact ⟨fun d hd => hd.elim, fun d hd => hd.elim⟩
  | succ n ih =>
    -- What is asked for is clear too, so that the hypothesis grounds it at both places.
    have hsources : stage registry src (n + 1) k id ⊆
        grow registry sources (grounded registry sources) k id :=
      h.grow_subset hsrc (.refl F sources) fun _ _ hclear => ⟨(ih hclear).1, (ih hclear).1⟩
    have hother : stage registry src (n + 1) k id ⊆
        grow registry dst (grounded registry dst) k id :=
      h.grow_subset hsrc hdst fun _ _ hclear => ih hclear
    rw [grow_grounded] at hsources hother
    exact ⟨hsources, hother⟩

end

/-- What differs in two sets of packages is seen only by what reaches it through references. -/
theorem grounded_eq_of_agreeOff (h : sources.AgreeOff F sources') {k : Kind} {id : ObjectId}
    (hclear : Clear registry sources F (k, id)) :
    grounded registry sources k id = grounded registry sources' k id := by
  ext d
  refine ⟨fun hd => ?_, fun hd => ?_⟩
  · obtain ⟨n, hn⟩ := mem_grounded_iff_stage.1 hd
    exact (hclear.stage_subset (.refl F sources) h n).2 hn
  · obtain ⟨n, hn⟩ := mem_grounded_iff_stage.1 hd
    exact (hclear.stage_subset h h n).1 hn

/-! ### Cycles -/

/-- What a definition refers to was there a stage before it. -/
theorem Refers.exists_stage {x y : Kind × ObjectId} (h : Refers registry sources x y) {n : Nat}
    (hn : ∃ d, d ∈ stage registry sources n x.1 x.2) :
    ∃ m, m < n ∧ ∃ d, d ∈ stage registry sources m y.1 y.2 := by
  obtain ⟨line, plan, hblueprint, hasks⟩ := h
  cases n with
  | zero =>
    obtain ⟨d, hd⟩ := hn
    exact hd.elim
  | succ n =>
    obtain ⟨d, line', plan', hblueprint', hsucceeds⟩ := hn
    rw [hblueprint] at hblueprint'
    cases hblueprint'
    refine ⟨n, n.lt_succ_self, hsucceeds.exists_of_asks (fun k id d hd d' hd' => ?_) hasks⟩
    exact grounded_unique (stage_le_grounded n k id hd) hd'

/-- So was what a definition refers to in several steps. -/
theorem exists_stage_of_transGen {x y : Kind × ObjectId}
    (h : Relation.TransGen (Refers registry sources) x y) {n : Nat}
    (hn : ∃ d, d ∈ stage registry sources n x.1 x.2) :
    ∃ m, m < n ∧ ∃ d, d ∈ stage registry sources m y.1 y.2 := by
  induction h with
  | single hrefers => exact hrefers.exists_stage hn
  | tail _ hrefers ih =>
    obtain ⟨m, hm, hstage⟩ := ih
    obtain ⟨m', hm', hstage'⟩ := hrefers.exists_stage hstage
    exact ⟨m', hm'.trans hm, hstage'⟩

/-- On a reference cycle, or above one, nothing is grounded. -/
theorem not_grounded_of_cycle {x y : Kind × ObjectId}
    (hreach : Relation.ReflTransGen (Refers registry sources) x y)
    (hcycle : Relation.TransGen (Refers registry sources) y y) (d : x.1.Def) :
    d ∉ grounded registry sources x.1 x.2 := by
  have hnot : ∀ d, d ∉ grounded registry sources y.1 y.2 :=
    not_grounded_of_earlier fun n hn => exists_stage_of_transGen hcycle hn
  intro hd
  obtain ⟨n, hn⟩ := mem_grounded_iff_stage.1 hd
  rcases Relation.reflTransGen_iff_eq_or_transGen.1 hreach with rfl | hreach
  · exact hnot d hd
  · obtain ⟨m, -, d', hd'⟩ := exists_stage_of_transGen hreach ⟨d, hn⟩
    exact hnot d' (stage_le_grounded m y.1 y.2 hd')

end Questbook
