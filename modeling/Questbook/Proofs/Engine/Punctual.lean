/-
Questbook/Proofs/Engine/Punctual.lean

Work is done once, on its tick and in order.

What happens to a clock and its work is told as a list of occurrences: work is scheduled, the clock
is advanced and takes out what is due, and what has been taken out is run, one after another.  Work
may be scheduled at any time, also while what was taken out is still being run.  A `Follows` leads
from one state of the clock to another and tells what has happened on the way.

The invariant `Account` draws up what was scheduled against what was run, what is still to be run of
what was taken out, and what waits.  Since no two pieces of work have the same number, each of them
is in one of these places, and in one only.

Main results: `account_of_follows`, `Drains.eq_advance` for a heap that gives its first entry, and
`exists_tells` for the engine, whose commands tell such a story.
-/
import Mathlib.Algebra.Group.Nat.Defs
import Mathlib.Data.List.Nodup
import Questbook.Proofs.Engine.Deferral

namespace Questbook

variable {α : Type}

/-! ### What happens to a clock -/

/-- What happens to a clock and its work. -/
inductive Occurrence (α : Type) where
  /-- Work is scheduled so many ticks ahead. -/
  | scheduled (ticks : Nat) (task : α)
  /-- The clock is advanced, and what is due is taken out. -/
  | ticked
  /-- A piece of work that was taken out is run. -/
  | ran (a : Appointment α)

/-- A clock with the work that waits for it, and the work that has been taken out and is still to be
run. -/
structure Bench (α : Type) where
  agenda : Agenda α
  batch : List (Appointment α)

/-- Something happens.  The clock is advanced only when all that was taken out has been run. -/
inductive Happens : Bench α → Occurrence α → Bench α → Prop
  | schedule {s s' : Agenda α} {batch : List (Appointment α)} {ticks : Nat} {task : α}
      (h : s.after? ticks task = some s') : Happens ⟨s, batch⟩ (.scheduled ticks task) ⟨s', batch⟩
  | tick (s : Agenda α) : Happens ⟨s, []⟩ .ticked ⟨s.advance.2, s.advance.1⟩
  | run (s : Agenda α) (a : Appointment α) (rest : List (Appointment α)) :
      Happens ⟨s, a :: rest⟩ (.ran a) ⟨s, rest⟩

/-- One thing happens after another. -/
inductive Follows : Bench α → List (Occurrence α) → Bench α → Prop
  | nil (b : Bench α) : Follows b [] b
  | cons {b b₁ b₂ : Bench α} {o : Occurrence α} {os : List (Occurrence α)} (h : Happens b o b₁)
      (hrest : Follows b₁ os b₂) : Follows b (o :: os) b₂

/-- A clock at zero, without work. -/
def Bench.empty : Bench α := ⟨Agenda.empty, []⟩

namespace Follows

variable {b b₁ b₂ : Bench α} {os os' : List (Occurrence α)}

theorem append (h : Follows b os b₁) (h' : Follows b₁ os' b₂) : Follows b (os ++ os') b₂ := by
  induction h with
  | nil => exact h'
  | cons hstep _ ih => exact .cons hstep (ih h')

theorem exists_of_append (h : Follows b (os ++ os') b₂) :
    ∃ b₁, Follows b os b₁ ∧ Follows b₁ os' b₂ := by
  induction os generalizing b with
  | nil => exact ⟨b, .nil b, h⟩
  | cons o os ih =>
    cases h with
    | cons hstep hrest =>
      obtain ⟨b₁, hleft, hright⟩ := ih hrest
      exact ⟨b₁, .cons hstep hleft, hright⟩

end Follows

/-! ### Reading a story -/

namespace Occurrence

/-- How often the clock was advanced. -/
def ticks : List (Occurrence α) → Nat
  | [] => 0
  | ticked :: os => ticks os + 1
  | scheduled _ _ :: os => ticks os
  | ran _ :: os => ticks os

/-- How many pieces of work were scheduled. -/
def issued : List (Occurrence α) → Nat
  | [] => 0
  | scheduled _ _ :: os => issued os + 1
  | ticked :: os => issued os
  | ran _ :: os => issued os

/-- The work that was run, in the order in which it was. -/
def runs : List (Occurrence α) → List (Appointment α)
  | [] => []
  | ran a :: os => a :: runs os
  | scheduled _ _ :: os => runs os
  | ticked :: os => runs os

/-- The work that was scheduled, from a tick and a number on. -/
def entriesFrom (tick number : Nat) : List (Occurrence α) → List (Appointment α)
  | [] => []
  | scheduled ticks task :: os =>
    ⟨tick + max ticks 1, number, task⟩ :: entriesFrom tick (number + 1) os
  | ticked :: os => entriesFrom (tick + 1) number os
  | ran _ :: os => entriesFrom tick number os

variable {os os' : List (Occurrence α)} {tick number : Nat} {a : Appointment α}

@[simp] theorem ticks_append : ticks (os ++ os') = ticks os + ticks os' := by
  induction os with
  | nil => exact (Nat.zero_add _).symm
  | cons o os ih =>
    cases o with
    | ticked => simp only [List.cons_append, ticks, ih, Nat.add_right_comm]
    | scheduled | ran => exact ih

@[simp] theorem issued_append : issued (os ++ os') = issued os + issued os' := by
  induction os with
  | nil => exact (Nat.zero_add _).symm
  | cons o os ih =>
    cases o with
    | scheduled => simp only [List.cons_append, issued, ih, Nat.add_right_comm]
    | ticked | ran => exact ih

@[simp] theorem runs_append : runs (os ++ os') = runs os ++ runs os' := by
  induction os with
  | nil => rfl
  | cons o os ih =>
    cases o with
    | ran a => exact congrArg (a :: ·) ih
    | scheduled | ticked => exact ih

@[simp] theorem entriesFrom_append : entriesFrom tick number (os ++ os') =
    entriesFrom tick number os ++ entriesFrom (tick + ticks os) (number + issued os) os' := by
  induction os generalizing tick number with
  | nil => rfl
  | cons o os ih =>
    cases o with
    | scheduled n task =>
      simp only [List.cons_append, entriesFrom, ticks, issued, ih, Nat.add_assoc,
        Nat.add_comm 1]
    | ticked =>
      simp only [List.cons_append, entriesFrom, ticks, issued, ih, Nat.add_assoc,
        Nat.add_comm 1]
    | ran a => exact ih

theorem exists_of_mem_runs (h : a ∈ runs os) : ∃ before after, os = before ++ .ran a :: after := by
  induction os with
  | nil => cases h
  | cons o os ih =>
    have hrest : a ∈ runs os → ∃ before after, o :: os = before ++ .ran a :: after := by
      intro hmem
      obtain ⟨before, after, rfl⟩ := ih hmem
      exact ⟨o :: before, after, rfl⟩
    cases o with
    | ran b =>
      rcases List.mem_cons.1 h with rfl | h
      · exact ⟨[], os, rfl⟩
      · exact hrest h
    | scheduled | ticked => exact hrest h

/-- What was scheduled was so at some time, and under the number that was next by then. -/
theorem exists_of_mem_entriesFrom (h : a ∈ entriesFrom tick number os) :
    ∃ before n after, os = before ++ .scheduled n a.task :: after ∧
      a.due = tick + ticks before + max n 1 ∧ a.number = number + issued before := by
  induction os generalizing tick number with
  | nil => cases h
  | cons o os ih =>
    cases o with
    | scheduled n task =>
      rcases List.mem_cons.1 h with rfl | h
      · exact ⟨[], n, os, rfl, rfl, rfl⟩
      · obtain ⟨before, m, after, rfl, hdue, hnumber⟩ := ih h
        refine ⟨.scheduled n task :: before, m, after, rfl, hdue, ?_⟩
        rw [hnumber, issued, Nat.add_right_comm, Nat.add_assoc]
    | ticked =>
      obtain ⟨before, m, after, rfl, hdue, hnumber⟩ := ih h
      refine ⟨.ticked :: before, m, after, rfl, ?_, hnumber⟩
      rw [hdue, ticks, Nat.add_right_comm tick, Nat.add_assoc tick]
    | ran b =>
      obtain ⟨before, m, after, rfl, hdue, hnumber⟩ := ih h
      exact ⟨.ran b :: before, m, after, rfl, hdue, hnumber⟩

/-- What is scheduled is numbered one by one. -/
theorem map_number_entriesFrom :
    (entriesFrom tick number os).map Appointment.number = List.range' number (issued os) := by
  induction os generalizing tick number with
  | nil => rfl
  | cons o os ih =>
    cases o with
    | scheduled n task =>
      simp only [entriesFrom, issued, List.map_cons, List.range'_succ, ih]
    | ticked | ran => exact ih

theorem length_entriesFrom : (entriesFrom tick number os).length = issued os := by
  rw [← List.length_map Appointment.number, map_number_entriesFrom, List.length_range']

end Occurrence

open Occurrence

/-! ### The account -/

/-- One piece of work comes before another: it is due earlier, or on the same tick and was scheduled
earlier. -/
def Appointment.Before (a b : Appointment α) : Prop :=
  a.due < b.due ∨ (a.due = b.due ∧ a.number < b.number)

/-- What has happened has led here: whatever was scheduled was run, is still to be run or waits, and
the clock has not gone past anything that waits. -/
structure Account (os : List (Occurrence α)) (b : Bench α) : Prop where
  tick : b.agenda.tick = ticks os
  issued : b.agenda.issued = issued os
  numbered : b.agenda.Numbered
  later : ∀ a ∈ b.agenda.waiting, b.agenda.tick < a.due
  taken : ∀ a ∈ b.batch, a.due = b.agenda.tick
  past : ∀ a ∈ runs os, a.due ≤ b.agenda.tick
  ordered : (runs os ++ b.batch).Pairwise Appointment.Before
  all : (runs os ++ b.batch ++ b.agenda.waiting).Perm (entriesFrom 0 0 os)

namespace Agenda

variable {s s' : Agenda α} {a : Appointment α}

theorem after?_eq_some_iff {ticks : Nat} {task : α} : s.after? ticks task = some s' ↔
    s.dueAfter ticks ≤ lastTick ∧
      s' = ⟨s.tick, s.issued + 1, ⟨s.dueAfter ticks, s.issued, task⟩ :: s.waiting⟩ := by
  simp only [after?]
  split
  · rename_i hdue
    rw [Option.some.injEq]
    exact ⟨fun h => ⟨hdue, h.symm⟩, fun h => h.2.symm⟩
  · rename_i hdue
    refine ⟨fun h => ?_, fun h => absurd h.1 hdue⟩
    cases h

/-- What is taken out and what is left are what was waiting. -/
theorem perm_advance (s : Agenda α) : (s.advance.1 ++ s.advance.2.waiting).Perm s.waiting := by
  have hparts : (s.waiting.filter (fun e => e.due ≤ s.tick + 1) ++
      s.waiting.filter fun e => !decide (e.due ≤ s.tick + 1)).Perm s.waiting :=
    List.filter_append_perm _ _
  rw [advance_eq]
  exact ((List.mergeSort_perm _ _).append_right _).trans hparts

theorem due_of_mem_advance (h : a ∈ s.advance.1) : a.due ≤ s.tick + 1 := by
  rw [advance_eq] at h
  simpa using (List.mem_filter.1 ((List.mergeSort_perm _ _).mem_iff.1 h)).2

/-- What is taken out on one tick is taken out in the order in which it was scheduled. -/
theorem Numbered.pairwise_advance (h : s.Numbered) :
    s.advance.1.Pairwise Appointment.Before := by
  have hsorted : s.advance.1.Pairwise fun a b => precedes a b = true :=
    List.pairwise_mergeSort precedes_trans precedes_total _
  -- Two of them do not have the same number, since what waits is numbered one by one.
  have hnodup : (s.advance.1.map Appointment.number).Nodup := by
    have hwaiting : (s.waiting.map Appointment.number).Nodup :=
      List.pairwise_map.2 (h.newest.imp fun hlt => (Nat.ne_of_lt hlt).symm)
    have hall := (s.perm_advance.map Appointment.number).nodup_iff.2 hwaiting
    rw [List.map_append] at hall
    exact (List.nodup_append.1 hall).1
  refine (hsorted.and (List.pairwise_map.1 hnodup)).imp_of_mem fun ha hb hab => ?_
  obtain ⟨hprecedes, hne⟩ := hab
  simp only [precedes, Bool.or_eq_true, Bool.and_eq_true, decide_eq_true_eq, beq_iff_eq]
    at hprecedes
  rcases hprecedes with hlt | ⟨heq, hle⟩
  · exact .inl hlt
  · exact .inr ⟨heq, Nat.lt_of_le_of_ne hle hne⟩

end Agenda

namespace Account

variable {os : List (Occurrence α)} {b b' : Bench α} {o : Occurrence α}

theorem empty : Account [] (Bench.empty : Bench α) where
  tick := rfl
  issued := rfl
  numbered := Agenda.numbered_empty
  later _ h := by cases h
  taken _ h := by cases h
  past _ h := by cases h
  ordered := .nil
  all := .nil

variable {s s' : Agenda α} {a : Appointment α} {batch rest : List (Appointment α)} {n : Nat}
  {task : α}

/-- Work that is scheduled waits. -/
theorem scheduled (h : Account os ⟨s, batch⟩) (hs : s.after? n task = some s') :
    Account (os ++ [.scheduled n task]) ⟨s', batch⟩ := by
  have hnumbered : s'.Numbered := h.numbered.after? hs
  obtain ⟨-, rfl⟩ := Agenda.after?_eq_some_iff.1 hs
  have hruns : runs (os ++ [.scheduled n task]) = runs os := by
    rw [runs_append]
    exact List.append_nil _
  have hentry : entriesFrom 0 0 (os ++ [.scheduled n task]) =
      entriesFrom 0 0 os ++ [⟨s.dueAfter n, s.issued, task⟩] := by
    rw [entriesFrom_append, Nat.zero_add, Nat.zero_add, ← h.tick, ← h.issued]
    rfl
  exact {
    tick := by
      rw [ticks_append]
      exact h.tick
    issued := by
      rw [issued_append]
      exact congrArg (· + 1) h.issued
    numbered := hnumbered
    later := by
      intro a ha
      rcases List.mem_cons.1 ha with rfl | ha
      · exact Nat.lt_add_of_pos_right (Nat.lt_of_lt_of_le Nat.one_pos (le_max_right n 1))
      · exact h.later a ha
    taken := h.taken
    past := hruns ▸ h.past
    ordered := hruns ▸ h.ordered
    all := by
      rw [hruns, hentry]
      exact List.perm_middle.trans ((h.all.cons _).trans (List.perm_append_singleton _ _).symm) }

/-- What is due when the clock is advanced is to be run from then on. -/
theorem ticked (h : Account os ⟨s, []⟩) :
    Account (os ++ [.ticked]) ⟨s.advance.2, s.advance.1⟩ := by
  have hruns : runs (os ++ [.ticked]) = runs os := by
    rw [runs_append]
    exact List.append_nil _
  have hentries : entriesFrom 0 0 (os ++ [.ticked]) = entriesFrom 0 0 os := by
    rw [entriesFrom_append]
    exact List.append_nil _
  have hordered : (runs os).Pairwise Appointment.Before := by
    simpa only [List.append_nil] using h.ordered
  have hall : (runs os ++ s.waiting).Perm (entriesFrom 0 0 os) := by
    simpa only [List.append_nil] using h.all
  exact {
    tick := by
      rw [ticks_append]
      exact congrArg (· + 1) h.tick
    issued := by
      rw [issued_append]
      exact h.issued
    numbered := h.numbered.advance
    later := fun a ha => Agenda.lt_due_of_mem_rest ha
    taken := fun a ha =>
      le_antisymm (Agenda.due_of_mem_advance ha) (h.later a (Agenda.mem_of_mem_advance ha))
    past := by
      rw [hruns]
      exact fun a ha => (h.past a ha).trans (Nat.le_succ _)
    ordered := by
      rw [hruns]
      refine List.pairwise_append.2 ⟨hordered, h.numbered.pairwise_advance, ?_⟩
      -- What was run before was due by then, and what is taken out was not.
      intro a ha a' ha'
      exact .inl (Nat.lt_of_le_of_lt (h.past a ha) (h.later a' (Agenda.mem_of_mem_advance ha')))
    all := by
      rw [hruns, hentries, List.append_assoc]
      exact (s.perm_advance.append_left _).trans hall }

/-- What is to be run first is what is run. -/
theorem ran (h : Account os ⟨s, a :: rest⟩) : Account (os ++ [.ran a]) ⟨s, rest⟩ := by
  have hruns : runs (os ++ [.ran a]) = runs os ++ [a] := runs_append
  have hentries : entriesFrom 0 0 (os ++ [.ran a]) = entriesFrom 0 0 os := by
    rw [entriesFrom_append]
    exact List.append_nil _
  exact {
    tick := by
      rw [ticks_append]
      exact h.tick
    issued := by
      rw [issued_append]
      exact h.issued
    numbered := h.numbered
    later := h.later
    taken := fun x hx => h.taken x (List.mem_cons_of_mem _ hx)
    past := by
      rw [hruns]
      intro x hx
      rcases List.mem_append.1 hx with hx | hx
      · exact h.past x hx
      · rw [List.mem_singleton.1 hx]
        exact (h.taken a List.mem_cons_self).le
    ordered := by
      rw [hruns, List.append_assoc]
      exact h.ordered
    all := by
      rw [hruns, hentries, List.append_assoc _ [a]]
      exact h.all }

/-- The account is kept, whatever happens. -/
theorem next (h : Account os b) (hstep : Happens b o b') : Account (os ++ [o]) b' := by
  cases hstep with
  | schedule hs => exact h.scheduled hs
  | tick s => exact h.ticked
  | run s a rest => exact h.ran

theorem follows (h : Account os b) {os' : List (Occurrence α)} (hfollows : Follows b os' b') :
    Account (os ++ os') b' := by
  induction hfollows generalizing os with
  | nil =>
    rw [List.append_nil]
    exact h
  | @cons b b₁ b₂ o os' hstep _ ih =>
    rw [← List.singleton_append, ← List.append_assoc]
    exact ih (h.next hstep)

end Account

/-- However it goes, the account is kept. -/
theorem account_of_follows {os : List (Occurrence α)} {b : Bench α}
    (h : Follows Bench.empty os b) : Account os b :=
  Account.empty.follows h

/-! ### Once, on its tick and in order -/

namespace Account

variable {os before after : List (Occurrence α)} {b : Bench α} {a a' : Appointment α} {n : Nat}
  {task : α}

/-- How often a number occurs among what was run, what is to be run and what waits. -/
theorem count_number (h : Account os b) (ha : a ∈ entriesFrom 0 0 os) :
    (runs os).countP (fun x => x.number = a.number) +
      b.batch.countP (fun x => x.number = a.number) +
      b.agenda.waiting.countP (fun x => x.number = a.number) = 1 := by
  have hcount : (entriesFrom 0 0 os).countP (fun x => x.number = a.number) = 1 := by
    have hnodup : ((entriesFrom 0 0 os).map Appointment.number).Nodup := by
      rw [map_number_entriesFrom]
      exact List.nodup_range'
    have hmem := List.nodup_iff_count_eq_one.1 hnodup a.number (List.mem_map_of_mem ha)
    rw [List.count, List.countP_map] at hmem
    refine Eq.trans (List.countP_congr fun x _ => ?_) hmem
    simp
  rw [← hcount, ← h.all.countP_eq, List.countP_append, List.countP_append]

/-- Under one number one piece of work was scheduled. -/
theorem eq_of_number (ha : a ∈ entriesFrom 0 0 os) (ha' : a' ∈ entriesFrom 0 0 os)
    (hnumber : a.number = a'.number) : a = a' := by
  have hnodup : ((entriesFrom 0 0 os).map Appointment.number).Nodup := by
    rw [map_number_entriesFrom]
    exact List.nodup_range'
  exact List.inj_on_of_nodup_map hnodup ha ha' hnumber

theorem mem_cases (h : Account os b) (ha : a ∈ entriesFrom 0 0 os) :
    a ∈ runs os ∨ a ∈ b.batch ∨ a ∈ b.agenda.waiting := by
  have hmem := h.all.mem_iff.2 ha
  simpa only [List.mem_append, or_assoc] using hmem

theorem count_of_mem (h : Account os b) (ha : a ∈ entriesFrom 0 0 os) (hruns : a ∈ runs os) :
    (runs os).countP (fun x => x.number = a.number) = 1 := by
  have hpos : 0 < (runs os).countP fun x => x.number = a.number :=
    List.countP_pos_iff.2 ⟨a, hruns, by simp⟩
  have hone := h.count_number ha
  omega

theorem count_of_not_run (h : Account os b) (ha : a ∈ entriesFrom 0 0 os)
    (hother : a ∈ b.batch ∨ a ∈ b.agenda.waiting) :
    (runs os).countP (fun x => x.number = a.number) = 0 := by
  have hone := h.count_number ha
  rcases hother with hbatch | hwaiting
  · have hpos : 0 < b.batch.countP fun x => x.number = a.number :=
      List.countP_pos_iff.2 ⟨a, hbatch, by simp⟩
    omega
  · have hpos : 0 < b.agenda.waiting.countP fun x => x.number = a.number :=
      List.countP_pos_iff.2 ⟨a, hwaiting, by simp⟩
    omega

/-- The entry of a piece of work that was scheduled. -/
theorem mem_entriesFrom (os os' : List (Occurrence α)) (n : Nat) (task : α) :
    ⟨ticks os + max n 1, Occurrence.issued os, task⟩ ∈
      entriesFrom 0 0 (os ++ .scheduled n task :: os') := by
  rw [entriesFrom_append, Nat.zero_add, Nat.zero_add]
  exact List.mem_append_right _ List.mem_cons_self

/-- Work that was scheduled has been run once when its tick is over, and not before. -/
theorem once (h : Account os b) (hos : os = before ++ .scheduled n task :: after) :
    (ticks before + max n 1 ≤ b.agenda.tick →
      ⟨ticks before + max n 1, Occurrence.issued before, task⟩ ∉ b.batch →
      ⟨ticks before + max n 1, Occurrence.issued before, task⟩ ∈ runs os ∧
        (runs os).countP (fun x => x.number = Occurrence.issued before) = 1) ∧
    (b.agenda.tick < ticks before + max n 1 ∨
      ⟨ticks before + max n 1, Occurrence.issued before, task⟩ ∈ b.batch →
      (runs os).countP (fun x => x.number = Occurrence.issued before) = 0) := by
  subst hos
  have hentry := mem_entriesFrom before after n task
  refine ⟨fun hdue hbatch => ?_, fun hnot => ?_⟩
  · have hruns := (h.mem_cases hentry).resolve_right ?_
    · exact ⟨hruns, h.count_of_mem hentry hruns⟩
    rintro (hmem | hmem)
    · exact hbatch hmem
    · exact absurd (h.later _ hmem) (Nat.not_lt.2 hdue)
  · refine h.count_of_not_run hentry ?_
    rcases hnot with hlate | hbatch
    · exact (h.mem_cases hentry).resolve_left fun hruns =>
        absurd (h.past _ hruns) (Nat.not_le.2 hlate)
    · exact .inl hbatch

theorem pending (h : Account os b) :
    b.agenda.pending + b.batch.length + (runs os).length = Occurrence.issued os := by
  have hlength := h.all.length_eq
  rw [length_entriesFrom, List.length_append, List.length_append] at hlength
  rw [← hlength, Agenda.pending]
  omega

end Account

namespace Follows

variable {os before after during : List (Occurrence α)} {b : Bench α} {a : Appointment α}

/-- What is run is run on its tick, and was scheduled before. -/
theorem run_on_tick (h : Follows Bench.empty (before ++ .ran a :: after) b) :
    ticks before = a.due ∧ ∃ earlier n later, before = earlier ++ .scheduled n a.task :: later ∧
      a.due = ticks earlier + max n 1 ∧ a.number = issued earlier := by
  obtain ⟨b₁, hbefore, hafter⟩ := h.exists_of_append
  have haccount := account_of_follows hbefore
  cases hafter with
  | cons hstep _ =>
    cases hstep with
    | run s a rest =>
      refine ⟨?_, ?_⟩
      · rw [← haccount.tick]
        exact (haccount.taken a List.mem_cons_self).symm
      · have hentry : a ∈ entriesFrom 0 0 before := haccount.all.mem_iff.1
          (List.mem_append_left _ (List.mem_append_right _ List.mem_cons_self))
        obtain ⟨earlier, n, later, heq, hdue, hnumber⟩ := exists_of_mem_entriesFrom hentry
        rw [Nat.zero_add] at hdue hnumber
        exact ⟨earlier, n, later, heq, hdue, hnumber⟩

/-- While what was taken out is being run, nothing is run that is scheduled meanwhile. -/
theorem not_run_meanwhile {n : Nat} {task : α}
    (h : Follows Bench.empty (before ++ .scheduled n task :: (during ++ after)) b)
    (hduring : ticks during = 0) : ∀ a ∈ runs during, a.number ≠ issued before := by
  intro a ha hnumber
  obtain ⟨left, right, rfl⟩ := exists_of_mem_runs ha
  have hsplit : before ++ .scheduled n task :: (left ++ .ran a :: right ++ after) =
      (before ++ .scheduled n task :: left) ++ .ran a :: (right ++ after) := by
    simp only [List.append_assoc, List.cons_append]
  rw [hsplit] at h
  obtain ⟨htick, earlier, m, later, heq, hdue, hearlier⟩ := h.run_on_tick
  -- The number says that it is the work in question, which is due on a later tick.
  have hsame : a = ⟨ticks before + max n 1, issued before, task⟩ := by
    have hrun : a ∈ entriesFrom 0 0 (before ++ .scheduled n task :: left) := by
      have hentry := Account.mem_entriesFrom earlier later m a.task
      rw [← hdue, ← hearlier] at hentry
      rw [heq]
      exact hentry
    exact Account.eq_of_number hrun (Account.mem_entriesFrom before left n task) hnumber
  have hleft : ticks left = 0 := by
    rw [ticks_append] at hduring
    exact Nat.eq_zero_of_add_eq_zero_right hduring
  have hpos : 0 < max n 1 := Nat.lt_of_lt_of_le Nat.one_pos (le_max_right n 1)
  have hnow : ticks before = ticks before + max n 1 := by
    calc ticks before = ticks (before ++ .scheduled n task :: left) := by
          rw [ticks_append, ticks, hleft, Nat.add_zero]
      _ = a.due := htick
      _ = ticks before + max n 1 := by rw [hsame]
  omega

/-- As long as the clock is not advanced again, what is run is what was taken out, in order. -/
theorem runs_of_batch {b b' : Bench α} (h : Follows b during b') (hduring : ticks during = 0) :
    runs during ++ b'.batch = b.batch := by
  induction h with
  | nil => rfl
  | @cons b b₁ b₂ o os hstep hrest ih =>
    cases hstep with
    | schedule => exact ih hduring
    | tick => cases hduring
    | run s a rest => exact congrArg (a :: ·) (ih hduring)

end Follows

/-! ### A heap -/

/-- Entries are taken from a heap until the one on top, which is a first one, is not due by `now`:
what was taken, one after another, and what is left. -/
inductive Drains (now : Nat) :
    List (Appointment α) → List (Appointment α) → List (Appointment α) → Prop
  | empty : Drains now [] [] []
  | late {heap rest : List (Appointment α)} {top : Appointment α} (hheap : heap.Perm (top :: rest))
      (htop : ∀ a ∈ rest, Agenda.precedes top a = true) (hlate : now < top.due) :
      Drains now heap [] heap
  | pop {heap rest popped left : List (Appointment α)} {top : Appointment α}
      (hheap : heap.Perm (top :: rest)) (htop : ∀ a ∈ rest, Agenda.precedes top a = true)
      (hdue : top.due ≤ now) (hrest : Drains now rest popped left) :
      Drains now heap (top :: popped) left

namespace Drains

variable {now : Nat} {heap popped left : List (Appointment α)}

theorem perm (h : Drains now heap popped left) : (popped ++ left).Perm heap := by
  induction h with
  | empty => exact .nil
  | late => exact .refl _
  | pop hheap _ _ _ ih => exact (ih.cons _).trans hheap.symm

theorem due (h : Drains now heap popped left) : ∀ a ∈ popped, a.due ≤ now := by
  induction h with
  | empty | late => exact nofun
  | pop _ _ hdue _ ih => exact List.forall_mem_cons.2 ⟨hdue, ih⟩

/-- What is left comes after the one on top, so that it is as late. -/
theorem late_of_left (h : Drains now heap popped left) : ∀ a ∈ left, now < a.due := by
  induction h with
  | empty => exact nofun
  | @late heap rest top hheap htop hlate =>
    intro a ha
    rcases List.mem_cons.1 (hheap.mem_iff.1 ha) with rfl | ha
    · exact hlate
    · have hprecedes := htop a ha
      simp only [Agenda.precedes, Bool.or_eq_true, Bool.and_eq_true, decide_eq_true_eq,
        beq_iff_eq] at hprecedes
      omega
  | pop _ _ _ _ ih => exact ih

theorem ordered (h : Drains now heap popped left) :
    popped.Pairwise fun a b => Agenda.precedes a b = true := by
  induction h with
  | empty | late => exact .nil
  | pop _ htop _ hrest ih =>
    refine List.pairwise_cons.2 ⟨fun a ha => htop a ?_, ih⟩
    exact hrest.perm.mem_iff.1 (List.mem_append_left _ ha)

/-- A heap that gives its first entry, whichever way it holds the others, gives what the agenda
gives. -/
theorem eq_advance {s : Agenda α} (hs : s.Numbered)
    (h : Drains (s.tick + 1) s.waiting popped left) :
    popped = s.advance.1 ∧ left.Perm s.advance.2.waiting := by
  -- What is popped is what is due, and what is left is late; together they are all there was.
  have hkept : ∀ keep : Appointment α → Bool,
      (popped.filter keep ++ left.filter keep).Perm (s.waiting.filter keep) := by
    intro keep
    rw [← List.filter_append]
    exact h.perm.filter keep
  have hpopped : popped.Perm (s.waiting.filter fun a => a.due ≤ s.tick + 1) := by
    have hleft : left.filter (fun a => a.due ≤ s.tick + 1) = [] :=
      List.filter_eq_nil_iff.2 fun a ha => by simpa using h.late_of_left a ha
    have hall : popped.filter (fun a => a.due ≤ s.tick + 1) = popped :=
      List.filter_eq_self.2 fun a ha => by simpa using h.due a ha
    have hdue := hkept fun a => a.due ≤ s.tick + 1
    rwa [hleft, hall, List.append_nil] at hdue
  have hleft : left.Perm (s.waiting.filter fun a => !decide (a.due ≤ s.tick + 1)) := by
    have hnone : popped.filter (fun a => !decide (a.due ≤ s.tick + 1)) = [] :=
      List.filter_eq_nil_iff.2 fun a ha => by simpa using h.due a ha
    have hall : left.filter (fun a => !decide (a.due ≤ s.tick + 1)) = left :=
      List.filter_eq_self.2 fun a ha => by simpa using h.late_of_left a ha
    have hlate := hkept fun a => !decide (a.due ≤ s.tick + 1)
    rwa [hnone, hall, List.nil_append] at hlate
  rw [Agenda.advance_eq]
  exact ⟨Agenda.eq_mergeSort (hs.newest.filter _) hpopped h.ordered, hleft⟩

end Drains

/-! ### The engine -/

namespace Agenda

variable {s s₁ s₂ : Agenda α} {calls calls' : List (Nat × α)}

theorem afterAll?_append (h : s.afterAll? calls = some s₁) :
    s.afterAll? (calls ++ calls') = s₁.afterAll? calls' := by
  induction calls generalizing s with
  | nil =>
    cases h
    rfl
  | cons call rest ih =>
    obtain ⟨s₂, hs₂, hrest⟩ := Option.bind_eq_some_iff.1 h
    show (s.after? call.1 call.2).bind _ = _
    rw [hs₂]
    exact ih hrest

/-- Work that is scheduled piece by piece, as it is told. -/
theorem follows_of_afterAll? (h : s.afterAll? calls = some s₁) (batch : List (Appointment α)) :
    Follows ⟨s, batch⟩ (calls.map fun call => .scheduled call.1 call.2) ⟨s₁, batch⟩ := by
  induction calls generalizing s with
  | nil =>
    cases h
    exact .nil _
  | cons call rest ih =>
    obtain ⟨s₂, hs₂, hrest⟩ := Option.bind_eq_some_iff.1 h
    exact .cons (.schedule hs₂) (ih hrest)

end Agenda

namespace Engine

variable {levels : Nat} {K : Packages} {s : Agenda Task} {e e' : Engine}

/-- The packages `K` are in force, and nothing has happened to the agenda but that work was
scheduled on it. -/
structure Schedules (K : Packages) (s : Agenda Task) (e : Engine) : Prop where
  packages : e.packages = K
  calls : ∃ calls, s.afterAll? calls = some e.agenda

theorem Schedules.refl (e : Engine) : Schedules e.packages e.agenda e := ⟨rfl, [], rfl⟩

theorem Schedules.later (h : Schedules K s e) {tasks : List (Nat × Task)} {agenda : Agenda Task}
    (hagenda : e.agenda.afterAll? tasks = some agenda) : Schedules K s { e with agenda } := by
  obtain ⟨hpackages, calls, hcalls⟩ := h
  exact ⟨hpackages, calls ++ tasks, (Agenda.afterAll?_append hcalls).trans hagenda⟩

theorem schedules_keptByAgenda (K : Packages) (s : Agenda Task) :
    KeptByAgenda K (Schedules K s) where
  packages he := he.packages
  congr he hpackages hagenda := ⟨hpackages.trans he.packages, hagenda ▸ he.calls⟩
  later he _ := he.later

/-- A command other than to advance the clock schedules work, and does nothing else to the
agenda. -/
theorem exists_calls_of_perform {c : Command} {answer : c.Answer} (htick : c ≠ .tick)
    (h : e.perform levels c = .ok (answer, e')) :
    ∃ calls, e.agenda.afterAll? calls = some e'.agenda := by
  by_cases hreload : ∃ packages, c = .replacePackages packages
  · obtain ⟨packages, rfl⟩ := hreload
    have hkeeps : (Objectives.reconcile packages).Keeps (Schedules packages e.agenda)
        fun _ => True := Objectives.reconcile_keeps (schedules_keptByAgenda _ _).reload
    exact (hkeeps.of_run (e := { e with packages }) ⟨rfl, [], rfl⟩ h).calls
  · have hkeeps := (schedules_keptByAgenda e.packages e.agenda).command_keeps levels htick
      (fun packages hc => hreload ⟨packages, hc⟩)
      fun event _ => ⟨fun he _ hagenda => he.later hagenda⟩
    exact (hkeeps.of_run (.refl e) h).calls

theorem exists_calls_of_task {t : Task} (h : (t.run (nested levels)).run e = .ok ((), e')) :
    ∃ calls, e.agenda.afterAll? calls = some e'.agenda :=
  (((schedules_keptByAgenda e.packages e.agenda).task_keeps levels t).of_run (.refl e) h).calls

/-- Tasks are run one after another, as it is told: each is told where it is run, and after it what
was scheduled while it ran. -/
inductive RunsThrough (levels : Nat) :
    List (Appointment Task) → Engine → List (Occurrence Task) → Engine → Prop
  | nil (e : Engine) : RunsThrough levels [] e [] e
  | cons {a : Appointment Task} {rest : List (Appointment Task)} {e e₁ e₂ : Engine}
      {calls : List (Nat × Task)} {os : List (Occurrence Task)}
      (hrun : (a.task.run (nested levels)).run e = .ok ((), e₁))
      (hcalls : e.agenda.afterAll? calls = some e₁.agenda)
      (hrest : RunsThrough levels rest e₁ os e₂) :
      RunsThrough levels (a :: rest) e
        (.ran a :: ((calls.map fun call => .scheduled call.1 call.2) ++ os)) e₂

/-- Commands are carried out one after another, as it is told: the clock is advanced where a command
says so, and what is due is run then; it answers how much that was. -/
inductive Tells (levels : Nat) :
    Engine → List Command → List (Occurrence Task) → Engine → Prop
  | nil (e : Engine) : Tells levels e [] [] e
  | still {c : Command} {cs : List Command} {answer : c.Answer} {e e₁ e₂ : Engine}
      {calls : List (Nat × Task)} {os : List (Occurrence Task)} (htick : c ≠ .tick)
      (h : e.perform levels c = .ok (answer, e₁))
      (hcalls : e.agenda.afterAll? calls = some e₁.agenda) (hrest : Tells levels e₁ cs os e₂) :
      Tells levels e (c :: cs) ((calls.map fun call => .scheduled call.1 call.2) ++ os) e₂
  | tick {cs : List Command} {e e₁ e₂ : Engine} {during os : List (Occurrence Task)}
      (h : e.perform levels .tick = .ok ((runs during).length, e₁))
      (hruns : RunsThrough levels e.agenda.advance.1 { e with agenda := e.agenda.advance.2 } during
        e₁)
      (hrest : Tells levels e₁ cs os e₂) :
      Tells levels e (.tick :: cs) (.ticked :: (during ++ os)) e₂

theorem RunsThrough.follows {due : List (Appointment Task)} {os : List (Occurrence Task)}
    (h : RunsThrough levels due e os e') : Follows ⟨e.agenda, due⟩ os ⟨e'.agenda, []⟩ := by
  induction h with
  | nil => exact .nil _
  | cons hrun hcalls _ ih =>
    exact .cons (.run _ _ _) ((Agenda.follows_of_afterAll? hcalls _).append ih)

theorem runs_scheduled (calls : List (Nat × Task)) :
    runs (calls.map fun call => Occurrence.scheduled call.1 call.2) = [] := by
  induction calls with
  | nil => rfl
  | cons call rest ih => exact ih

theorem RunsThrough.runs_eq {due : List (Appointment Task)} {os : List (Occurrence Task)}
    (h : RunsThrough levels due e os e') : runs os = due := by
  induction h with
  | nil => rfl
  | cons hrun hcalls _ ih =>
    rw [runs, runs_append, runs_scheduled, List.nil_append, ih]

theorem exists_runsThrough {due : List (Appointment Task)}
    (h : (Task.runEach (nested levels) due).run e = .ok ((), e')) :
    ∃ os, RunsThrough levels due e os e' := by
  induction due generalizing e with
  | nil =>
    cases h
    exact ⟨[], .nil _⟩
  | cons a rest ih =>
    obtain ⟨_, e₁, hrun, h⟩ := Act.exists_of_run_bind h
    obtain ⟨calls, hcalls⟩ := exists_calls_of_task hrun
    obtain ⟨os, hrest⟩ := ih h
    exact ⟨_, .cons hrun hcalls hrest⟩

/-- What a tick answers is how much was due. -/
theorem tick_answer {count : Nat} (h : e.perform levels .tick = .ok (count, e')) :
    count = e.agenda.advance.1.length := by
  obtain ⟨_, _, hget, h⟩ := Act.exists_of_run_bind h
  cases hget
  obtain ⟨_, _, hmodify, h⟩ := Act.exists_of_run_bind h
  cases hmodify
  obtain ⟨_, _, -, h⟩ := Act.exists_of_run_bind h
  cases h
  rfl

/-- Whatever is asked of the engine tells a story of its clock. -/
theorem exists_tells {cs : List Command} (h : performAll levels cs e = .ok e') :
    ∃ os, Tells levels e cs os e' ∧ Follows ⟨e.agenda, []⟩ os ⟨e'.agenda, []⟩ := by
  induction cs generalizing e with
  | nil =>
    cases h
    exact ⟨[], .nil _, .nil _⟩
  | cons c cs ih =>
    obtain ⟨e₁, answer, hperform, hrest⟩ := exists_of_performAll_cons h
    obtain ⟨os, htells, hfollows⟩ := ih hrest
    by_cases htick : c = .tick
    · subst htick
      obtain ⟨during, hruns⟩ := exists_runsThrough (tick_run hperform)
      obtain rfl : answer = (runs during).length := by
        rw [hruns.runs_eq]
        exact tick_answer hperform
      exact ⟨_, .tick hperform hruns htells,
        .cons (.tick e.agenda) (hruns.follows.append hfollows)⟩
    · obtain ⟨calls, hcalls⟩ := exists_calls_of_perform htick hperform
      exact ⟨_, .still htick hperform hcalls htells,
        (Agenda.follows_of_afterAll? hcalls _).append hfollows⟩

end Engine

/-- **Scheduled work is run once, on its tick and in order.**

Whatever happens to a clock that begins without work:

* the work that is scheduled `n` ticks ahead on a tick is due `n` ticks later, on the next tick if
  `n` is zero; it is run once, and until its tick it is not;
* what is run is run on the tick it is due on, and was scheduled before that;
* what is run is run in the order of the ticks, and on one tick in the order of scheduling;
* while what a tick has taken out is being run, nothing is run that is scheduled meanwhile;
* what waits, what is still to be run of what was taken out and what was run are together as much as
  was scheduled.

Between one tick and the next all that the tick has taken out is run, in order, and nothing else.
Work is accepted as long as the tick it is due on has 64 bits.  What is taken out is what a heap
gives that always has a first entry on top.  The commands of the engine tell such a story: a tick
runs what is due where the story says so, and answers how much that was.
-/
theorem scheduled_work_runs_once :
    (∀ (α : Type) (os : List (Occurrence α)) (b : Bench α), Follows Bench.empty os b →
      b.agenda.tick = ticks os ∧
      (∀ before n task after, os = before ++ .scheduled n task :: after →
        (ticks before + max n 1 ≤ b.agenda.tick →
          ⟨ticks before + max n 1, issued before, task⟩ ∉ b.batch →
          ⟨ticks before + max n 1, issued before, task⟩ ∈ runs os ∧
            (runs os).countP (fun a => a.number = issued before) = 1) ∧
        (b.agenda.tick < ticks before + max n 1 ∨
          ⟨ticks before + max n 1, issued before, task⟩ ∈ b.batch →
          (runs os).countP (fun a => a.number = issued before) = 0)) ∧
      (∀ before a after, os = before ++ .ran a :: after →
        ticks before = a.due ∧ ∃ earlier n later, before = earlier ++ .scheduled n a.task :: later ∧
          a.due = ticks earlier + max n 1 ∧ a.number = issued earlier) ∧
      (runs os).Pairwise (fun a a' => a.due < a'.due ∨ (a.due = a'.due ∧ a.number < a'.number)) ∧
      (∀ before n task during after, os = before ++ .scheduled n task :: (during ++ after) →
        ticks during = 0 → ∀ a ∈ runs during, a.number ≠ issued before) ∧
      b.agenda.pending + b.batch.length + (runs os).length = issued os) ∧
    (∀ (α : Type) (s s' : Agenda α) (during : List (Occurrence α)),
      Follows ⟨s, []⟩ (.ticked :: during) ⟨s', []⟩ → ticks during = 0 →
      runs during = s.advance.1) ∧
    (∀ (α : Type) (s : Agenda α) n task,
      (∃ s', s.after? n task = some s') ↔ s.tick + max n 1 < 2 ^ 64) ∧
    (∀ (α : Type) (os : List (Occurrence α)) (b : Bench α) popped left,
      Follows Bench.empty os b → Drains (b.agenda.tick + 1) b.agenda.waiting popped left →
      popped = b.agenda.advance.1 ∧ left.Perm b.agenda.advance.2.waiting) ∧
    ∀ levels cs e e', Engine.performAll levels cs e = .ok e' →
      ∃ os, Engine.Tells levels e cs os e' ∧ Follows ⟨e.agenda, []⟩ os ⟨e'.agenda, []⟩ := by
  refine ⟨?_, ?_, ?_, ?_, ?_⟩
  · intro α os b h
    have haccount := account_of_follows h
    refine ⟨haccount.tick, fun before n task after hos => haccount.once hos, ?_, ?_, ?_,
      haccount.pending⟩
    · rintro before a after rfl
      exact h.run_on_tick
    · exact (List.pairwise_append.1 haccount.ordered).1
    · rintro before n task during after rfl hduring
      exact h.not_run_meanwhile hduring
  · intro α s s' during htick hduring
    cases htick with
    | cons hstep hrest =>
      cases hstep with
      | tick =>
        have hruns := hrest.runs_of_batch hduring
        rwa [List.append_nil] at hruns
  · intro α s n task
    have hrange : s.dueAfter n ≤ Agenda.lastTick ↔ s.tick + max n 1 < 2 ^ 64 := by
      rw [Agenda.dueAfter, Agenda.lastTick]
      omega
    rw [← hrange]
    simp only [Agenda.after?_eq_some_iff, exists_and_left, exists_eq, and_true]
  · intro α os b popped left h hdrains
    exact hdrains.eq_advance (account_of_follows h).numbered
  · intro levels cs e e' h
    exact Engine.exists_tells h

/-- A bell is set for the second tick, and on the first one a gate for the next.  The echo of the
bell comes up while it rings. -/
def meeting : List (Occurrence String) :=
  [.scheduled 2 "bell", .ticked, .scheduled 1 "gate", .ticked, .ran ⟨2, 0, "bell"⟩,
    .scheduled 0 "echo", .ran ⟨2, 1, "gate"⟩]

theorem follows_meeting : Follows Bench.empty meeting ⟨⟨2, 3, [⟨3, 2, "echo"⟩]⟩, []⟩ := by
  have hfirst : Happens ⟨⟨0, 1, [⟨2, 0, "bell"⟩]⟩, []⟩ .ticked ⟨⟨1, 1, [⟨2, 0, "bell"⟩]⟩, []⟩ := by
    have hadvance : Agenda.advance ⟨0, 1, [⟨2, 0, "bell"⟩]⟩ = ([], ⟨1, 1, [⟨2, 0, "bell"⟩]⟩) := by
      rw [Agenda.advance_eq]
      simp
    have htick := Happens.tick ⟨0, 1, [⟨2, 0, "bell"⟩]⟩
    rwa [hadvance] at htick
  have hsecond : Happens ⟨⟨1, 2, [⟨2, 1, "gate"⟩, ⟨2, 0, "bell"⟩]⟩, []⟩ .ticked
      ⟨⟨2, 2, []⟩, [⟨2, 0, "bell"⟩, ⟨2, 1, "gate"⟩]⟩ := by
    have hsorted : [⟨2, 0, "bell"⟩, ⟨2, 1, "gate"⟩] =
        List.mergeSort [⟨2, 1, "gate"⟩, ⟨2, 0, "bell"⟩] Agenda.precedes :=
      Agenda.eq_mergeSort (by simp) (.swap _ _ _) (by simp [Agenda.precedes])
    have hadvance : Agenda.advance ⟨1, 2, [⟨2, 1, "gate"⟩, ⟨2, 0, "bell"⟩]⟩ =
        ([⟨2, 0, "bell"⟩, ⟨2, 1, "gate"⟩], ⟨2, 2, []⟩) := by
      rw [Agenda.advance_eq, hsorted]
      rfl
    have htick := Happens.tick ⟨1, 2, [⟨2, 1, "gate"⟩, ⟨2, 0, "bell"⟩]⟩
    rwa [hadvance] at htick
  exact .cons (.schedule rfl) (.cons hfirst (.cons (.schedule rfl) (.cons hsecond
    (.cons (.run _ _ _) (.cons (.schedule rfl) (.cons (.run _ _ _) (.nil _)))))))

/-- The bell and the gate meet, and each is run once; the echo waits. -/
theorem scheduled_work_runs_once_of_meeting :
    (⟨2, 0, "bell"⟩ ∈ runs meeting ∧ (runs meeting).countP (fun a => a.number = 0) = 1) ∧
    (⟨2, 1, "gate"⟩ ∈ runs meeting ∧ (runs meeting).countP (fun a => a.number = 1) = 1) ∧
    (runs meeting).countP (fun a => a.number = 2) = 0 := by
  obtain ⟨-, honce, -⟩ := scheduled_work_runs_once.1 String meeting _ follows_meeting
  refine ⟨?_, ?_, ?_⟩
  · exact (honce [] 2 "bell" _ rfl).1 (by decide) nofun
  · exact (honce [.scheduled 2 "bell", .ticked] 1 "gate" _ rfl).1 (by decide) nofun
  · exact (honce [.scheduled 2 "bell", .ticked, .scheduled 1 "gate", .ticked, .ran ⟨2, 0, "bell"⟩]
      0 "echo" _ rfl).2 (.inl (by decide))

end Questbook
