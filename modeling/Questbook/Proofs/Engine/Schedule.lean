/-
Questbook/Proofs/Engine/Schedule.lean

The same work on two agendas.

Two agendas may hold the same work of some kind, and one of them other work in between.  What comes
out of them is ordered by when it is due and when it was scheduled, so that the work which they
share comes out of both in the same order, whatever its numbers are.

Main result: `Agenda.Twin.advance`.
-/
import Mathlib.Data.List.Forall2
import Mathlib.Data.List.Pairwise
import Questbook.Agenda

namespace Questbook

variable {α : Type}

namespace Agenda

/-- What comes out is what is due, sorted, and the rest goes on waiting. -/
theorem advance_eq (s : Agenda α) : s.advance =
    ((s.waiting.filter fun a => a.due ≤ s.tick + 1).mergeSort precedes,
      ⟨s.tick + 1, s.issued, s.waiting.filter fun a => !decide (a.due ≤ s.tick + 1)⟩) := by
  simp only [advance, List.partition_eq_filter_filter]
  rfl

/-! ### Numbers -/

/-- What waits is numbered in the order in which it was scheduled. -/
structure Numbered (s : Agenda α) : Prop where
  newest : s.waiting.Pairwise fun a b => b.number < a.number
  issued : ∀ a ∈ s.waiting, a.number < s.issued

variable {s s₁ : Agenda α} {tasks : List (Nat × α)}

theorem numbered_empty : (empty : Agenda α).Numbered := ⟨.nil, fun _ h => by cases h⟩

theorem Numbered.after? (h : s.Numbered) {ticks : Nat} {task : α}
    (hs : s.after? ticks task = some s₁) : s₁.Numbered := by
  simp only [Agenda.after?] at hs
  split at hs
  · cases hs
    refine ⟨List.pairwise_cons.2 ⟨h.issued, h.newest⟩, fun a ha => ?_⟩
    rcases List.mem_cons.1 ha with rfl | ha
    · exact Nat.lt_succ_self _
    · exact Nat.lt_succ_of_lt (h.issued a ha)
  · cases hs

theorem Numbered.afterAll? (h : s.Numbered) (hs : s.afterAll? tasks = some s₁) : s₁.Numbered := by
  induction tasks generalizing s with
  | nil =>
    cases hs
    exact h
  | cons t rest ih =>
    obtain ⟨s₂, hs₂, hrest⟩ := Option.bind_eq_some_iff.1 hs
    exact ih (h.after? hs₂) hrest

theorem Numbered.advance (h : s.Numbered) : s.advance.2.Numbered := by
  refine ⟨?_, fun a ha => h.issued a (mem_of_mem_rest ha)⟩
  rw [advance_eq]
  exact h.newest.filter _

/-! ### Work of a kind -/

/-- Work that is not of a kind leaves what waits of it. -/
theorem filter_afterAll? {mine : α → Bool} (hother : ∀ t ∈ tasks, mine t.2 = false)
    (hs : s.afterAll? tasks = some s₁) :
    (s₁.waiting.filter fun a => mine a.task) = s.waiting.filter fun a => mine a.task := by
  induction tasks generalizing s with
  | nil =>
    cases hs
    rfl
  | cons t rest ih =>
    obtain ⟨s₂, hs₂, hrest⟩ := Option.bind_eq_some_iff.1 hs
    rw [List.forall_mem_cons] at hother
    rw [ih hother.2 hrest]
    simp only [Agenda.after?] at hs₂
    split at hs₂
    · cases hs₂
      rw [List.filter_cons_of_neg (by simpa using hother.1)]
    · cases hs₂

theorem tick_afterAll? (hs : s.afterAll? tasks = some s₁) : s₁.tick = s.tick := by
  induction tasks generalizing s with
  | nil =>
    cases hs
    rfl
  | cons t rest ih =>
    obtain ⟨s₂, hs₂, hrest⟩ := Option.bind_eq_some_iff.1 hs
    simp only [Agenda.after?] at hs₂
    split at hs₂
    · cases hs₂
      have htick := ih hrest
      exact htick
    · cases hs₂

end Agenda

/-! ### Twins -/

/-- The same work, due at the same time. -/
def Appointment.Twin (T : α → α → Prop) (a a' : Appointment α) : Prop :=
  a'.due = a.due ∧ T a.task a'.task

namespace Agenda

/-- One agenda has the work of the other that is of a kind, and nothing else. -/
structure Twin (mine : α → Bool) (T : α → α → Prop) (s s' : Agenda α) : Prop where
  tick : s'.tick = s.tick
  left : s.Numbered
  right : s'.Numbered
  waiting : List.Forall₂ (Appointment.Twin T) (s.waiting.filter fun a => mine a.task) s'.waiting

variable {mine : α → Bool} {T U : α → α → Prop} {s s' s₁ : Agenda α} {tasks tasks' : List (Nat × α)}

theorem Twin.mono (h : s.Twin mine T s') (hU : ∀ t t', T t t' → U t t') : s.Twin mine U s' :=
  { h with waiting := h.waiting.imp fun _ _ ha => ⟨ha.1, hU _ _ ha.2⟩ }

/-- The same work is scheduled on both. -/
theorem Twin.afterAll? (h : s.Twin mine T s')
    (htasks : List.Forall₂ (fun t t' => t'.1 = t.1 ∧ T t.2 t'.2) tasks tasks')
    (hT : ∀ t t', T t t' → mine t = true) (hs : s.afterAll? tasks = some s₁) :
    ∃ s₁', s'.afterAll? tasks' = some s₁' ∧ s₁.Twin mine T s₁' := by
  induction htasks generalizing s s' with
  | nil =>
    cases hs
    exact ⟨s', rfl, h⟩
  | @cons t t' rest rest' ht hrest ih =>
    obtain ⟨s₂, hs₂, hrest⟩ := Option.bind_eq_some_iff.1 hs
    have hdue : s'.dueAfter t'.1 = s.dueAfter t.1 := by
      rw [dueAfter, dueAfter, h.tick, ht.1]
    obtain ⟨s₂', hs₂', htwin⟩ : ∃ s₂', s'.after? t'.1 t'.2 = some s₂' ∧ s₂.Twin mine T s₂' := by
      have hnumbered := h.left.after? hs₂
      simp only [Agenda.after?] at hs₂
      split at hs₂
      · rename_i hlast
        cases hs₂
        have hs₂' : s'.after? t'.1 t'.2 = some _ := if_pos (hdue ▸ hlast)
        refine ⟨_, hs₂', ⟨h.tick, hnumbered, h.right.after? hs₂', ?_⟩⟩
        rw [List.filter_cons_of_pos (by simpa using hT _ _ ht.2)]
        exact .cons ⟨hdue, ht.2⟩ h.waiting
      · cases hs₂
    obtain ⟨s₁', hs₁', hlast⟩ := ih htwin hrest
    exact ⟨s₁', Option.bind_eq_some_iff.2 ⟨s₂', hs₂', hs₁'⟩, hlast⟩

/-! ### What comes out -/

variable {l l' : List (Appointment α)}

theorem precedes_trans (a b c : Appointment α) (hab : precedes a b = true)
    (hbc : precedes b c = true) : precedes a c = true := by
  simp only [precedes, Bool.or_eq_true, Bool.and_eq_true, decide_eq_true_eq, beq_iff_eq] at *
  omega

theorem precedes_total (a b : Appointment α) : (precedes a b || precedes b a) = true := by
  simp only [precedes, Bool.or_eq_true, Bool.and_eq_true, decide_eq_true_eq, beq_iff_eq]
  omega

/-- What is numbered one by one is sorted in one way only. -/
theorem eq_mergeSort {l l' : List (Appointment α)} (hl : l.Pairwise fun a b => b.number < a.number)
    (hperm : l'.Perm l) (hsorted : l'.Pairwise fun a b => precedes a b = true) :
    l' = l.mergeSort precedes := by
  have hsame : ∀ a ∈ l, ∀ b ∈ l, a.number = b.number → a = b := by
    refine List.Pairwise.forall_of_forall_of_flip (fun _ _ _ => rfl) ?_ ?_
    · exact hl.imp fun hlt heq => absurd heq (by omega)
    · exact hl.imp fun hlt heq => absurd heq (by omega)
  refine List.Perm.eq_of_pairwise ?_ hsorted
    (List.pairwise_mergeSort precedes_trans precedes_total l)
    (hperm.trans (List.mergeSort_perm l _).symm)
  intro a b ha hb hab hba
  refine hsame a (hperm.mem_iff.1 ha) b ((List.mergeSort_perm l _).mem_iff.1 hb) ?_
  simp only [precedes, Bool.or_eq_true, Bool.and_eq_true, decide_eq_true_eq, beq_iff_eq] at hab hba
  omega

/-- What is left out of what comes out may as well be left out before. -/
theorem filter_mergeSort (hl : l.Pairwise fun a b => b.number < a.number)
    (keep : Appointment α → Bool) :
    (l.mergeSort precedes).filter keep = (l.filter keep).mergeSort precedes :=
  eq_mergeSort (hl.filter keep) ((List.mergeSort_perm l _).filter keep)
    ((List.pairwise_mergeSort precedes_trans precedes_total l).filter keep)

/-- The same work comes out in the same order. -/
theorem forall₂_mergeSort (h : List.Forall₂ (Appointment.Twin T) l l')
    (hl : l.Pairwise fun a b => b.number < a.number)
    (hl' : l'.Pairwise fun a b => b.number < a.number) :
    List.Forall₂ (Appointment.Twin T) (l.mergeSort precedes) (l'.mergeSort precedes) := by
  -- Both are the same list of pairs, sorted by the first and by the second parts.
  obtain ⟨hlength, hpairs⟩ := List.forall₂_iff_zip.1 h
  have hfst : (l.zip l').map Prod.fst = l := List.map_fst_zip (by omega)
  have hsnd : (l.zip l').map Prod.snd = l' := List.map_snd_zip (by omega)
  rw [← hfst] at hl
  rw [← hsnd] at hl'
  have hnumbers : ∀ x ∈ l.zip l', ∀ y ∈ l.zip l',
      (x.1.number ≤ y.1.number ↔ x.2.number ≤ y.2.number) := by
    have hnewest := (List.pairwise_map.1 hl).and (List.pairwise_map.1 hl')
    refine List.Pairwise.forall_of_forall_of_flip (fun x _ => by simp) ?_ ?_
    · exact hnewest.imp fun hlt => by omega
    · exact hnewest.imp fun hlt => by simp only [flip]; omega
  have hprecedes : ∀ x ∈ l.zip l', ∀ y ∈ l.zip l', precedes x.1 y.1 = precedes x.2 y.2 := by
    intro x hx y hy
    have hxdue := (hpairs (a := x.1) (b := x.2) hx).1
    have hydue := (hpairs (a := y.1) (b := y.2) hy).1
    simp only [precedes, hxdue, hydue, hnumbers x hx y hy]
  have hleft := List.map_mergeSort (f := Prod.fst) (l := l.zip l')
    (r := fun x y => precedes x.1 y.1) (s := precedes) fun _ _ _ _ => rfl
  have hright := List.map_mergeSort (f := Prod.snd) (l := l.zip l')
    (r := fun x y => precedes x.1 y.1) (s := precedes) hprecedes
  rw [hfst] at hleft
  rw [hsnd] at hright
  rw [← hleft, ← hright, List.forall₂_map_left_iff, List.forall₂_map_right_iff, List.forall₂_same]
  intro x hx
  exact hpairs ((List.mergeSort_perm _ _).mem_iff.1 hx)

/-- What comes out of the one comes out of the other, and so does nothing else. -/
theorem Twin.advance (h : s.Twin mine T s') : s.advance.2.Twin mine T s'.advance.2 ∧
    List.Forall₂ (Appointment.Twin T) (s.advance.1.filter fun a => mine a.task) s'.advance.1 := by
  have hnow : ∀ {a a' : Appointment α}, Appointment.Twin T a a' →
      decide (a'.due ≤ s'.tick + 1) = decide (a.due ≤ s.tick + 1) := fun ha => by
    rw [ha.1, h.tick]
  refine ⟨⟨?_, h.left.advance, h.right.advance, ?_⟩, ?_⟩
  · exact congrArg (· + 1) h.tick
  · rw [advance_eq, advance_eq]
    dsimp only
    rw [List.filter_comm]
    exact List.rel_filter (fun a a' ha => by simp only [hnow ha]) h.waiting
  · rw [advance_eq, advance_eq]
    dsimp only
    rw [filter_mergeSort (h.left.newest.filter _), List.filter_comm]
    refine forall₂_mergeSort
      (List.rel_filter (fun a a' ha => by simp only [hnow ha]) h.waiting) ?_ ?_
    · exact (h.left.newest.filter _).filter _
    · exact h.right.newest.filter _

end Agenda

end Questbook
