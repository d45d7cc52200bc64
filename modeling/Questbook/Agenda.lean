/-
Questbook/Agenda.lean

Work that waits for its tick.

A clock counts ticks.  Work is scheduled some ticks ahead, at least one, and comes out when the
clock gets there; what is due on one tick comes out in the order in which it was scheduled.  Ticks
are 64-bit: work that would be due beyond that cannot be scheduled.

The clock itself, and the count of what has been scheduled, have no bound.  They go up by one at a
time, so that no run comes to the end of 64 bits.
-/

namespace Questbook

/-- A piece of work, when it is due and how many were scheduled before it. -/
structure Appointment (α : Type) where
  due : Nat
  number : Nat
  task : α

/-- A clock and the work that waits for it. -/
structure Agenda (α : Type) where
  tick : Nat
  issued : Nat
  /-- What waits, in the opposite of the order in which it was scheduled. -/
  waiting : List (Appointment α)

namespace Agenda

variable {α : Type}

/-- A clock at zero without work. -/
def empty : Agenda α := ⟨0, 0, []⟩

instance : Inhabited (Agenda α) := ⟨empty⟩

/-- The last tick that the clock can reach. -/
def lastTick : Nat := 18446744073709551615

/-- How much work waits. -/
def pending (s : Agenda α) : Nat := s.waiting.length

/-- The tick on which work scheduled now is due. -/
def dueAfter (s : Agenda α) (ticks : Nat) : Nat := s.tick + max ticks 1

/-- Schedule work, unless its tick is out of range. -/
def after? (s : Agenda α) (ticks : Nat) (task : α) : Option (Agenda α) :=
  let due := s.dueAfter ticks
  if due ≤ lastTick then some ⟨s.tick, s.issued + 1, ⟨due, s.issued, task⟩ :: s.waiting⟩ else none

/-- Schedule several pieces of work, each after its ticks. -/
def afterAll? (s : Agenda α) : List (Nat × α) → Option (Agenda α)
  | [] => some s
  | (ticks, task) :: rest => do
    let s ← s.after? ticks task
    s.afterAll? rest

/-- Whether one piece of work comes before another: it is due earlier, or was scheduled earlier. -/
def precedes (a b : Appointment α) : Bool :=
  a.due < b.due || (a.due == b.due && a.number ≤ b.number)

/-- Advance the clock by a tick: the work that comes out, in order, and the rest. -/
def advance (s : Agenda α) : List (Appointment α) × Agenda α :=
  let now := s.tick + 1
  let (due, rest) := s.waiting.partition fun e => e.due ≤ now
  (due.mergeSort precedes, ⟨now, s.issued, rest⟩)

/-! ### What waits -/

variable {s s' : Agenda α} {tasks : List (Nat × α)} {a : Appointment α}

/-- What waits after scheduling has waited before, or was scheduled. -/
theorem mem_of_afterAll? (h : s.afterAll? tasks = some s') (ha : a ∈ s'.waiting) :
    a ∈ s.waiting ∨ ∃ ticks, (ticks, a.task) ∈ tasks ∧ a.due = s.dueAfter ticks := by
  induction tasks generalizing s with
  | nil =>
    cases h
    exact .inl ha
  | cons t rest ih =>
    obtain ⟨ticks, task⟩ := t
    obtain ⟨s₁, hs₁, hrest⟩ := Option.bind_eq_some_iff.1 h
    simp only [after?] at hs₁
    split at hs₁
    · cases hs₁
      rcases ih hrest with hwaiting | ⟨ticks', hmem, hdue⟩
      · rcases List.mem_cons.1 hwaiting with rfl | hwaiting
        · exact .inr ⟨ticks, List.mem_cons_self, rfl⟩
        · exact .inl hwaiting
      · exact .inr ⟨ticks', List.mem_cons_of_mem _ hmem, hdue⟩
    · cases hs₁

/-- What comes out has been waiting, -/
theorem mem_of_mem_advance (h : a ∈ s.advance.1) : a ∈ s.waiting := by
  have hmem : a ∈ (s.waiting.partition fun e => e.due ≤ s.tick + 1).1 :=
    (List.mergeSort_perm _ _).mem_iff.1 h
  rw [List.partition_eq_filter_filter] at hmem
  exact (List.mem_filter.1 hmem).1

/-- and so has what goes on waiting, -/
theorem mem_of_mem_rest (h : a ∈ s.advance.2.waiting) : a ∈ s.waiting := by
  have hmem : a ∈ (s.waiting.partition fun e => e.due ≤ s.tick + 1).2 := h
  rw [List.partition_eq_filter_filter] at hmem
  exact (List.mem_filter.1 hmem).1

/-- which is due later. -/
theorem lt_due_of_mem_rest (h : a ∈ s.advance.2.waiting) : s.tick + 1 < a.due := by
  have hmem : a ∈ (s.waiting.partition fun e => e.due ≤ s.tick + 1).2 := h
  rw [List.partition_eq_filter_filter] at hmem
  simpa using (List.mem_filter.1 hmem).2

end Agenda

end Questbook
