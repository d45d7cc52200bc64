/-
Questbook/Proofs/Package/Cycles.lean

Reference cycles, and how they lie on the stack.

The stack of definitions under construction is a chain of references, so a definition that is met on
it again closes a cycle, and the path that is cut out of the stack follows it (`Trail.cyclePath`).

A plan stops at the first reference that cannot be built, and so a definition that is not built has
one reference at most to another such definition (`Refers.unique`).  Cycles of these references
cannot share a member without being the same: whatever comes back to itself and can be reached from
a cycle is on it (`CyclePath.mem_of_reaches`).
-/
import Mathlib.Data.List.Chain
import Mathlib.Data.List.Nodup
import Questbook.Proofs.Package.Mentions

namespace Questbook

variable {registry : Registry} {sources : Sources} {k : Kind} {id : ObjectId}
variable {x y z : Kind × ObjectId} {stack : List (Kind × ObjectId)}

/-! ### Paths of references -/

/-- A definition that comes back to itself through references, each of them to be built once the
ones before it are. -/
def Cyclic (registry : Registry) (sources : Sources) (x : Kind × ObjectId) : Prop :=
  Relation.TransGen (Refers registry sources) x x

/-- A path along the references of definitions of one kind, back to where it began and with no
other repetition. -/
structure CyclePath (registry : Registry) (sources : Sources) (k : Kind) (path : List ObjectId) :
    Prop where
  long : 2 ≤ path.length
  closed : path.head? = path.getLast?
  once : path.tail.Nodup
  linked : path.IsChain fun a b => Refers registry sources (k, a) (k, b)

/-- What reaches a cycle, or is on it, is not built. -/
theorem Cyclic.not_grounded (h : Cyclic registry sources y)
    (hreach : Relation.ReflTransGen (Refers registry sources) x y) (d : x.1.Def) :
    d ∉ grounded registry sources x.1 x.2 :=
  not_grounded_of_cycle hreach h d

theorem level_of_reaches (horderly : registry.Orderly)
    (h : Relation.ReflTransGen (Refers registry sources) x y) :
    y.1 = x.1 ∨ y.1.level < x.1.level := by
  induction h with
  | refl => exact .inl rfl
  | tail _ hrefers ih =>
    rcases hrefers.level horderly with heq | hlt
    · rwa [heq]
    · rcases ih with heq | hlt'
      · exact .inr (heq ▸ hlt)
      · exact .inr (hlt.trans hlt')

/-- Definitions that reach each other are of the same kind. -/
theorem kind_eq_of_reaches (horderly : registry.Orderly)
    (hxy : Relation.ReflTransGen (Refers registry sources) x y)
    (hyx : Relation.ReflTransGen (Refers registry sources) y x) : x.1 = y.1 := by
  rcases level_of_reaches horderly hyx with heq | hlt
  · exact heq
  · rcases level_of_reaches horderly hxy with heq | hlt'
    · exact heq.symm
    · exact absurd hlt' hlt.asymm

/-- What a reference leads to is there if the reference is answered. -/
theorem Reference.LeadsTo.exists_of_met {package : String} {S : Stock} {r : Reference}
    {t : r.Target} (h : r.LeadsTo sources package (k, id)) (hmet : r.Met sources package S t) :
    ∃ d, d ∈ S k id := by
  obtain ⟨l, hlead, rfl, hlocate⟩ := h
  obtain ⟨id', d, hlocate', hd, -⟩ := (Reference.met_of_lead hlead).1 hmet
  cases hlocate.symm.trans hlocate'
  exact ⟨d, hd⟩

theorem Reference.LeadsTo.unique {package : String} {r : Reference}
    (h : r.LeadsTo sources package x) (h' : r.LeadsTo sources package y) : x = y := by
  obtain ⟨l, hlead, hkind, hlocate⟩ := h
  obtain ⟨l', hlead', hkind', hlocate'⟩ := h'
  cases hlead.symm.trans hlead'
  exact Prod.ext (hkind.symm.trans hkind') (Except.ok.inj (hlocate.symm.trans hlocate'))

/-- A plan stops at the first thing that is not there, so that it asks for only one such thing. -/
theorem Plan.Asks.unique {σ α : Type} {package : String} {plan : Plan σ α}
    (h : plan.Asks sources package (grounded registry sources) x)
    (h' : plan.Asks sources package (grounded registry sources) y)
    (hx : ∀ d, d ∉ grounded registry sources x.1 x.2)
    (hy : ∀ d, d ∉ grounded registry sources y.1 y.2) : x = y := by
  induction plan with
  | done => exact h.elim
  | fail => exact h.elim
  | refer r _ next ih =>
    rcases h with hleads | ⟨t, hmet, h⟩ <;> rcases h' with hleads' | ⟨t', hmet', h'⟩
    · exact hleads.unique hleads'
    · obtain ⟨d, hd⟩ := hleads.exists_of_met hmet'
      exact absurd hd (hx d)
    · obtain ⟨d, hd⟩ := hleads'.exists_of_met hmet
      exact absurd hd (hy d)
    · obtain rfl := hmet.unique hmet' fun _ _ _ hd _ hd' => grounded_unique hd hd'
      exact ih t h h'

/-- A definition refers to one definition at most that is not built. -/
theorem Refers.unique (h : Refers registry sources x y) (h' : Refers registry sources x z)
    (hy : ∀ d, d ∉ grounded registry sources y.1 y.2)
    (hz : ∀ d, d ∉ grounded registry sources z.1 z.2) : y = z := by
  obtain ⟨line, plan, hblueprint, hasks⟩ := h
  obtain ⟨line', plan', hblueprint', hasks'⟩ := h'
  rw [hblueprint] at hblueprint'
  cases hblueprint'
  exact hasks.unique hasks' hy hz

namespace CyclePath

variable {path : List ObjectId} {a b : ObjectId}

theorem exists_next (h : CyclePath registry sources k path) (ha : a ∈ path) :
    ∃ b ∈ path, Refers registry sources (k, a) (k, b) := by
  obtain ⟨s, t, rfl⟩ := List.append_of_mem ha
  cases t with
  | cons b t =>
    have hlinked := h.linked.right_of_append
    exact ⟨b, by simp, (List.isChain_cons_cons.1 hlinked).1⟩
  | nil =>
    -- The path ends here, and goes on where it began.
    cases s with
    | nil => exact absurd h.long (by simp)
    | cons c s =>
      have hclosed := h.closed
      rw [List.getLast?_concat] at hclosed
      obtain rfl : c = a := Option.some.inj hclosed
      have hlinked := h.linked
      cases s with
      | nil => exact ⟨c, by simp, (List.isChain_cons_cons.1 hlinked).1⟩
      | cons b s => exact ⟨b, by simp, (List.isChain_cons_cons.1 hlinked).1⟩

theorem reaches (h : CyclePath registry sources k path) (ha : a ∈ path) (hb : b ∈ path) :
    Relation.ReflTransGen (Refers registry sources) (k, a) (k, b) := by
  have hne : path ≠ [] := List.ne_nil_of_mem ha
  have hends : path.head hne = path.getLast hne := by
    have hclosed := h.closed
    rwa [List.head?_eq_some_head hne, List.getLast?_eq_some_getLast hne, Option.some.injEq]
      at hclosed
  have hto : Relation.ReflTransGen (Refers registry sources) (k, a) (k, path.getLast hne) :=
    h.linked.backwards_induction
      (fun c => Relation.ReflTransGen (Refers registry sources) (k, c) (k, path.getLast hne)) path
      (fun _ _ hrefers hrest => .head hrefers hrest) (fun _ => .refl) a ha
  have hfrom : Relation.ReflTransGen (Refers registry sources) (k, path.head hne) (k, b) :=
    h.linked.induction
      (fun c => Relation.ReflTransGen (Refers registry sources) (k, path.head hne) (k, c)) path
      (fun _ _ hrefers hrest => .tail hrest hrefers) (fun _ => .refl) b hb
  rw [hends] at hfrom
  exact hto.trans hfrom

/-- A definition on a cycle comes back to itself. -/
theorem cyclic (h : CyclePath registry sources k path) (ha : a ∈ path) :
    Cyclic registry sources (k, a) := by
  obtain ⟨b, hb, hrefers⟩ := h.exists_next ha
  exact .head' hrefers (h.reaches hb ha)

/-- What can be reached from a cycle and comes back to itself is on it. -/
theorem mem_of_reaches (h : CyclePath registry sources k path) (ha : a ∈ path)
    (hreach : Relation.ReflTransGen (Refers registry sources) (k, a) x)
    (hx : Cyclic registry sources x) : x.1 = k ∧ x.2 ∈ path := by
  suffices hall : ∀ y, Relation.ReflTransGen (Refers registry sources) y x → y.1 = k →
      y.2 ∈ path → x.1 = k ∧ x.2 ∈ path from hall (k, a) hreach rfl ha
  intro y hy
  induction hy using Relation.ReflTransGen.head_induction_on with
  | refl => exact fun hk hmem => ⟨hk, hmem⟩
  | @head y z hrefers hrest ih =>
    rintro rfl hmem
    -- Neither the next definition of the path nor the next one on the way is built.
    obtain ⟨b, hb, hnext⟩ := h.exists_next hmem
    obtain rfl := hrefers.unique hnext (hx.not_grounded hrest) ((h.cyclic hb).not_grounded .refl)
    exact ih rfl hb

end CyclePath

/-! ### The stack -/

/-- The definitions under construction: each was asked for by the one below it, and the newest one
asks for `x`. -/
structure Trail (registry : Registry) (sources : Sources) (stack : List (Kind × ObjectId))
    (x : Kind × ObjectId) : Prop where
  nodup : stack.Nodup
  linked : (x :: stack).IsChain fun newer older => Refers registry sources older newer

/-- The stack down to a definition on it. -/
theorem isPrefix_takeWhile (hx : x ∈ stack) : stack.takeWhile (· ≠ x) ++ [x] <+: stack := by
  induction stack with
  | nil => cases hx
  | cons y rest ih =>
    by_cases hy : y = x
    · exact ⟨rest, by simp [hy]⟩
    · obtain ⟨below, hbelow⟩ := ih ((List.mem_cons.1 hx).resolve_left (Ne.symm hy))
      refine ⟨below, ?_⟩
      rw [List.takeWhile_cons_of_pos (by simpa using hy), List.cons_append, List.cons_append,
        hbelow]

namespace Trail

theorem nil (x : Kind × ObjectId) : Trail registry sources [] x := ⟨.nil, .singleton x⟩

theorem push (h : Trail registry sources stack x) (hx : x ∉ stack)
    (hrefers : Refers registry sources x y) : Trail registry sources (x :: stack) y :=
  ⟨List.nodup_cons.2 ⟨hx, h.nodup⟩, List.isChain_cons_cons.2 ⟨hrefers, h.linked⟩⟩

/-- What is on the stack reaches what is asked for. -/
theorem reaches (h : Trail registry sources stack x) (hy : y ∈ stack) :
    Relation.TransGen (Refers registry sources) y x := by
  obtain ⟨hhead, hlinked⟩ := List.isChain_cons.1 h.linked
  refine hlinked.induction (fun z => Relation.TransGen (Refers registry sources) z x) stack
    (fun _ _ hrefers hrest => .head hrefers hrest) (fun hne => ?_) y hy
  exact .single (hhead _ (List.head?_eq_some_head hne))

theorem waits (h : Trail registry sources stack (k, id)) : Waits registry sources stack k id :=
  fun _ hy _ hn => exists_stage_of_transGen (h.reaches hy) hn

section

variable (horderly : registry.Orderly) (h : Trail registry sources stack x) (hx : x ∈ stack)

include horderly h hx

/-- The path that is cut out of the stack goes up the stack, through definitions of one kind. -/
theorem map_cyclePath : (cyclePath stack x.1 x.2).map (Prod.mk x.1) =
    x :: ((stack.takeWhile (· ≠ x)).reverse ++ [x]) := by
  have hlinked : (stack.takeWhile (· ≠ x) ++ [x]).IsChain
      fun newer older => Refers registry sources older newer :=
    List.IsChain.prefix h.linked.tail (isPrefix_takeWhile hx)
  have hkind : ∀ y ∈ stack.takeWhile (· ≠ x), (x.1, y.2) = y := by
    intro y hy
    have hfrom : Relation.ReflTransGen (Refers registry sources) x y :=
      hlinked.backwards_concat_induction (Relation.ReflTransGen (Refers registry sources) x) _
        (fun _ _ hrefers hrest => .tail hrest hrefers) .refl y hy
    have hmem : y ∈ stack := (List.takeWhile_prefix _).subset hy
    rw [kind_eq_of_reaches horderly hfrom (h.reaches hmem).to_reflTransGen]
  have hsame : (stack.takeWhile (· ≠ x)).reverse.map (fun y => (x.1, y.2)) =
      (stack.takeWhile (· ≠ x)).reverse :=
    List.map_congr_left (g := id) (fun y hy => hkind y (List.mem_reverse.1 hy)) |>.trans
      (List.map_id _)
  simp only [cyclePath, List.map_cons, List.map_append, List.map_map, List.map_nil]
  exact congrArg (fun l => x :: (l ++ [x])) hsame

/-- **A definition that is met on the stack again closes a cycle**, and its path is the one that is
reported. -/
theorem cyclePath : CyclePath registry sources x.1 (cyclePath stack x.1 x.2) where
  long := by simp [Questbook.cyclePath]
  closed := by
    have hlast := List.getLast?_concat
      (l := x.2 :: (stack.takeWhile (· ≠ x)).reverse.map Prod.snd) (a := x.2)
    exact hlast.symm
  once := by
    have hnodup : (stack.takeWhile (· ≠ x) ++ [x]).Nodup :=
      h.nodup.sublist (isPrefix_takeWhile hx).sublist
    have htail := congrArg List.tail (h.map_cyclePath horderly hx)
    rw [← List.map_tail, List.tail_cons] at htail
    refine .of_map (Prod.mk x.1) ?_
    rw [htail, ← List.nodup_reverse, List.reverse_append, List.reverse_reverse]
    exact hnodup.perm List.perm_append_comm
  linked := by
    have hlinked : (x :: (stack.takeWhile (· ≠ x) ++ [x])).IsChain
        fun newer older => Refers registry sources older newer :=
      List.IsChain.prefix h.linked ((List.prefix_cons_inj x).2 (isPrefix_takeWhile hx))
    refine (List.isChain_map (Prod.mk x.1)).1 ?_
    rw [h.map_cyclePath horderly hx]
    simpa using List.isChain_reverse.2 hlinked

/-- The definitions on the path that is cut out of the stack are on the stack. -/
theorem mem_of_mem_cyclePath {a : ObjectId} (ha : a ∈ Questbook.cyclePath stack x.1 x.2) :
    (x.1, a) ∈ stack := by
  have hmem := List.mem_map_of_mem (f := Prod.mk x.1) ha
  rw [h.map_cyclePath horderly hx] at hmem
  rcases List.mem_cons.1 hmem with heq | hmem
  · exact heq ▸ hx
  · rcases List.mem_append.1 hmem with hmem | hmem
    · exact (List.takeWhile_prefix _).subset (List.mem_reverse.1 hmem)
    · exact List.mem_singleton.1 hmem ▸ hx

end

end Trail

end Questbook
