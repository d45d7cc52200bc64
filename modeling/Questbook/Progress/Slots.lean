/-
Questbook/Progress/Slots.lean

The active objectives of all players.

A player with active objectives has a slot; a slot that is left empty is closed, and the next start
opens another one.  Whoever works on a player's objectives holds the number of the slot he found:
once that slot is closed he sees no active objectives any more, even if the player has a new slot
by then.  Each start gets an epoch of its own, by which anything computed from an earlier state
tells whether it is still wanted.
-/
import Questbook.Progress.Record

namespace Questbook

/-- An active objective. -/
structure Active where
  data : Json
  epoch : Nat
  startedAt : Calendar.Timestamp

/-- The record of an active objective. -/
def Active.record (a : Active) (player : PlayerId) (objective : ObjectId) : ProgressRecord :=
  ⟨player, objective, a.data, a.startedAt⟩

/-- The active objectives of a player, under the number of their slot. -/
structure Slot where
  number : Nat
  active : Table ObjectId Active

/-- The slots of all players. -/
structure Slots where
  slots : Table PlayerId Slot
  /-- The number of the next slot. -/
  nextNumber : Nat
  nextEpoch : Nat

namespace Slots

/-- No active objectives. -/
def empty : Slots := ⟨∅, 0, 0⟩

instance : Inhabited Slots := ⟨empty⟩

/-! ### Views -/

/-- The active objectives of a player. -/
def activeOf (s : Slots) (p : PlayerId) : Table ObjectId Active :=
  match s.slots.find? p with
  | some slot => slot.active
  | none => ∅

/-- An active objective of a player. -/
def find? (s : Slots) (p : PlayerId) (o : ObjectId) : Option Active := (s.activeOf p).find? o

/-- Whether an objective is active for a player. -/
def isActive (s : Slots) (p : PlayerId) (o : ObjectId) : Bool := (s.find? p o).isSome

/-- The active objectives of a player, in ascending order. -/
def ids (s : Slots) (p : PlayerId) : List ObjectId := ObjectId.sorted (s.activeOf p).keys

/-- How many players have a slot. -/
def tracked (s : Slots) : Nat := s.slots.size

/-- The number of a player's slot. -/
def held? (s : Slots) (p : PlayerId) : Option Nat := (s.slots.find? p).map Slot.number

/-- The active objectives in the slot that someone holds: none once it is closed. -/
def activeIn (s : Slots) (p : PlayerId) (held : Nat) : Table ObjectId Active :=
  match s.slots.find? p with
  | some slot => if slot.number = held then slot.active else ∅
  | none => ∅

/-- An active objective in the slot that someone holds. -/
def findIn? (s : Slots) (p : PlayerId) (held : Nat) (o : ObjectId) : Option Active :=
  (s.activeIn p held).find? o

/-- Whether an objective in a held slot is active since a certain start. -/
def isCurrent (s : Slots) (p : PlayerId) (held : Nat) (o : ObjectId) (epoch : Nat) : Bool :=
  match s.findIn? p held o with
  | some a => a.epoch = epoch
  | none => false

/-! ### Changes -/

/-- A new epoch.  There is always one: epochs, and the numbers of slots, have no bound. -/
def issueEpoch (s : Slots) : Nat × Slots := (s.nextEpoch, { s with nextEpoch := s.nextEpoch + 1 })

/-- Set an active objective of a player, opening a slot if need be. -/
def put (s : Slots) (p : PlayerId) (o : ObjectId) (a : Active) : Slots :=
  match s.slots.find? p with
  | some slot => { s with slots := s.slots.insert p { slot with active := slot.active.insert o a } }
  -- A slot that was closed is not taken up again: whoever holds it finds nothing in it.
  | none =>
    { s with
      slots := s.slots.insert p ⟨s.nextNumber, (∅ : Table ObjectId Active).insert o a⟩
      nextNumber := s.nextNumber + 1 }

/-- Change the active objectives of a held slot; a closed one stays as it is. -/
def changeIn (s : Slots) (p : PlayerId) (held : Nat)
    (f : Table ObjectId Active → Table ObjectId Active) : Slots :=
  match s.slots.find? p with
  | some slot =>
    if slot.number = held then
      { s with slots := s.slots.insert p { slot with active := f slot.active } }
    else s
  | none => s

/-- Close a held slot if it is empty. -/
def prune (s : Slots) (p : PlayerId) (held : Nat) : Slots :=
  match s.slots.find? p with
  | some slot =>
    if slot.number = held ∧ slot.active.isEmpty then { s with slots := s.slots.erase p } else s
  | none => s

/-! ### The view of each change -/

variable (s : Slots) (p p' : PlayerId) (held : Nat) (o o' : ObjectId)

/-- The slot of an entry that is set: the one there is, or a new one. -/
theorem slot_put (a : Active) : (s.put p o a).slots.find? p' =
    if p = p' then some ⟨(s.held? p).getD s.nextNumber, (s.activeOf p).insert o a⟩
    else s.slots.find? p' := by
  unfold put held? activeOf
  cases hs : s.slots.find? p with
  | none => by_cases hp : p = p' <;> simp [hp, Table.find?_insert]
  | some slot => by_cases hp : p = p' <;> simp [hp, Table.find?_insert]

theorem slot_changeIn (f : Table ObjectId Active → Table ObjectId Active) :
    (s.changeIn p held f).slots.find? p' =
      if p = p' then (s.slots.find? p).map fun slot =>
        if slot.number = held then { slot with active := f slot.active } else slot
      else s.slots.find? p' := by
  unfold changeIn
  by_cases hp : p = p'
  · subst hp
    cases hs : s.slots.find? p with
    | none => simp [hs]
    | some slot => by_cases hn : slot.number = held <;> simp [hs, hn]
  · cases hs : s.slots.find? p with
    | none => simp [hp]
    | some slot => by_cases hn : slot.number = held <;> simp [hn, hp, Table.find?_insert_of_ne]

theorem slot_prune : (s.prune p held).slots.find? p' =
    if p = p' then (s.slots.find? p).filter fun slot =>
      !(slot.number = held && slot.active.isEmpty)
    else s.slots.find? p' := by
  unfold prune
  by_cases hp : p = p'
  · subst hp
    cases hs : s.slots.find? p with
    | none => simp [hs]
    | some slot =>
      by_cases hc : slot.number = held ∧ slot.active.isEmpty <;> simp [hs, hc, Option.filter]
  · cases hs : s.slots.find? p with
    | none => simp [hp]
    | some slot =>
      by_cases hc : slot.number = held ∧ slot.active.isEmpty <;>
        simp [hc, hp, Table.find?_erase_of_ne]

/-- What is found in a held slot is active for the player. -/
theorem find?_of_findIn? {a : Active} (h : s.findIn? p held o = some a) : s.find? p o = some a := by
  unfold findIn? activeIn at h
  unfold find? activeOf
  cases hs : s.slots.find? p with
  | none => simp [hs] at h
  | some slot =>
    by_cases hn : slot.number = held
    · simpa [hs, hn] using h
    · simp [hs, hn] at h

theorem findIn?_of_find?_eq_none (h : s.find? p o = none) : s.findIn? p held o = none := by
  cases hfind : s.findIn? p held o with
  | none => rfl
  | some a => cases h.symm.trans (s.find?_of_findIn? _ _ _ hfind)

/-- What is active for a player is found in the slot that he has. -/
theorem exists_findIn?_of_find? {a : Active} (h : s.find? p o = some a) :
    ∃ held, s.held? p = some held ∧ s.findIn? p held o = some a := by
  unfold find? activeOf at h
  split at h
  · rename_i slot hslot
    refine ⟨slot.number, by rw [held?, hslot]; rfl, ?_⟩
    rw [findIn?, activeIn, hslot]
    simpa only [if_true] using h
  · cases h

/-- In the slot that a player has, all is found that is active for him. -/
theorem activeIn_of_held? (h : s.held? p = some held) : s.activeIn p held = s.activeOf p := by
  unfold held? at h
  unfold activeIn activeOf
  obtain ⟨slot, hslot, rfl⟩ := Option.map_eq_some_iff.1 h
  simp [hslot]

theorem findIn?_of_held? (h : s.held? p = some held) : s.findIn? p held o = s.find? p o := by
  rw [findIn?, activeIn_of_held? _ _ _ h, find?]

/-- Nothing is active for a player who has no slot. -/
theorem find?_of_held?_eq_none (h : s.held? p = none) : s.find? p o = none := by
  have hslot : s.slots.find? p = none := Option.map_eq_none_iff.1 h
  simp [find?, activeOf, hslot]

theorem isCurrent_iff {epoch : Nat} : s.isCurrent p held o epoch = true ↔
    ∃ a, s.findIn? p held o = some a ∧ a.epoch = epoch := by
  unfold isCurrent
  cases s.findIn? p held o <;> simp

/-- Who has something active has a slot. -/
theorem mem_keys_of_find? {a : Active} (h : s.find? p o = some a) : p ∈ s.slots.keys := by
  unfold find? activeOf at h
  split at h
  · rename_i slot hslot
    exact Table.mem_keys_of_find? hslot
  · cases h

/-- An entry that is set is found, and no other one is touched. -/
theorem find?_put (a : Active) :
    (s.put p o a).find? p' o' = if p = p' ∧ o = o' then some a else s.find? p' o' := by
  unfold find? activeOf put
  cases hs : s.slots.find? p with
  | none =>
    by_cases hp : p = p'
    · subst hp
      simp [hs, Table.find?_insert]
    · simp [hp, Table.find?_insert_of_ne]
  | some slot =>
    by_cases hp : p = p'
    · subst hp
      simp [hs, Table.find?_insert]
    · simp [hp, Table.find?_insert_of_ne]

/-- A change of a held slot is a change of the player's active objectives. -/
theorem activeOf_changeIn {a : Active} (h : s.findIn? p held o = some a)
    (f : Table ObjectId Active → Table ObjectId Active) :
    (s.changeIn p held f).activeOf p' = if p = p' then f (s.activeOf p) else s.activeOf p' := by
  unfold findIn? activeIn at h
  unfold activeOf changeIn
  cases hs : s.slots.find? p with
  | none => simp [hs] at h
  | some slot =>
    by_cases hn : slot.number = held
    · by_cases hp : p = p'
      · subst hp
        simp [hn]
      · simp [hn, hp, Table.find?_insert_of_ne]
    · simp [hs, hn] at h

/-- An entry of a held slot that is replaced is found, and no other one is touched. -/
theorem find?_changeIn_insert {a : Active} (h : s.findIn? p held o = some a) (b : Active) :
    (s.changeIn p held (·.insert o b)).find? p' o' =
      if p = p' ∧ o = o' then some b else s.find? p' o' := by
  unfold find?
  rw [s.activeOf_changeIn p p' held o h]
  by_cases hp : p = p'
  · subst hp
    simp [Table.find?_insert]
  · simp [hp]

/-- An entry of a held slot that is erased is gone, and no other one is touched. -/
theorem find?_changeIn_erase {a : Active} (h : s.findIn? p held o = some a) :
    (s.changeIn p held (·.erase o)).find? p' o' =
      if p = p' ∧ o = o' then none else s.find? p' o' := by
  unfold find?
  rw [s.activeOf_changeIn p p' held o h]
  by_cases hp : p = p'
  · subst hp
    simp [Table.find?_erase]
  · simp [hp]

/-- Closing an empty slot touches nothing that is active. -/
theorem find?_prune : (s.prune p held).find? p' o' = s.find? p' o' := by
  unfold prune
  cases hs : s.slots.find? p with
  | none => rfl
  | some slot =>
    by_cases hc : slot.number = held ∧ slot.active.isEmpty
    · by_cases hp : p = p'
      · subst hp
        have hempty : slot.active.find? o' = none := Table.find?_of_isEmpty hc.2 o'
        simp [hc, find?, activeOf, hs, hempty]
      · simp [hc, find?, activeOf, Table.find?_erase_of_ne _ hp]
    · simp [hc]

/-! ### The slot that a player has -/

theorem held?_put (a : Active) : (s.put p o a).held? p' =
    if p = p' then some ((s.held? p).getD s.nextNumber) else s.held? p' := by
  rw [held?, slot_put]
  split <;> rfl

@[simp] theorem held?_changeIn (f : Table ObjectId Active → Table ObjectId Active) :
    (s.changeIn p held f).held? p' = s.held? p' := by
  rw [held?, slot_changeIn, held?]
  split
  · rename_i hp
    subst hp
    cases s.slots.find? p with
    | none => rfl
    | some slot => by_cases hheld : slot.number = held <;> simp [hheld]
  · rfl

/-- Closing a slot of one player leaves the others theirs. -/
theorem held?_prune_of_ne (h : p ≠ p') : (s.prune p held).held? p' = s.held? p' := by
  rw [held?, slot_prune, if_neg h, held?]

/-- Whoever has a slot after one was closed had it before. -/
theorem held?_of_held?_prune {number : Nat} (h : (s.prune p held).held? p' = some number) :
    s.held? p' = some number := by
  by_cases hp : p = p'
  · subst hp
    rw [held?, slot_prune, if_pos rfl] at h
    obtain ⟨slot, hslot, rfl⟩ := Option.map_eq_some_iff.1 h
    rw [held?, (Option.filter_eq_some_iff.1 hslot).1]
    rfl
  · rwa [held?_prune_of_ne _ _ _ _ hp] at h

/-- In a held slot something is found only while it is the one that the player has. -/
theorem held?_of_findIn? {a : Active} (h : s.findIn? p held o = some a) :
    s.held? p = some held := by
  unfold findIn? activeIn at h
  rw [held?]
  cases hslot : s.slots.find? p with
  | none => simp [hslot] at h
  | some slot =>
    by_cases hheld : slot.number = held
    · simp [hheld]
    · simp [hslot, hheld] at h

/-! ### Counters -/

@[simp] theorem nextEpoch_put (a : Active) : (s.put p o a).nextEpoch = s.nextEpoch := by
  unfold put
  split <;> rfl

@[simp] theorem nextEpoch_changeIn (f : Table ObjectId Active → Table ObjectId Active) :
    (s.changeIn p held f).nextEpoch = s.nextEpoch := by
  unfold changeIn
  split
  · split <;> rfl
  · rfl

@[simp] theorem nextEpoch_prune : (s.prune p held).nextEpoch = s.nextEpoch := by
  unfold prune
  split
  · split <;> rfl
  · rfl

theorem nextNumber_put (a : Active) : (s.put p o a).nextNumber =
    if s.held? p = none then s.nextNumber + 1 else s.nextNumber := by
  unfold put held?
  cases s.slots.find? p <;> simp

@[simp] theorem nextNumber_changeIn (f : Table ObjectId Active → Table ObjectId Active) :
    (s.changeIn p held f).nextNumber = s.nextNumber := by
  unfold changeIn
  split
  · split <;> rfl
  · rfl

@[simp] theorem nextNumber_prune : (s.prune p held).nextNumber = s.nextNumber := by
  unfold prune
  split
  · split <;> rfl
  · rfl

end Slots

end Questbook
