/-
Questbook/Proofs/Engine/Occupancy.lean

Who has a slot, and what is in the slots that are closed.

Between commands those have a slot for whom something is active: whoever leaves a slot empty closes
it before he is done (`Slots.Tidy`).  Within a command a slot may be closed, and another one opened,
while an operation further out still holds the first one.  `Slots` keeps no slot that is closed, and
answers for it as for an empty one.  Here every slot that there has been is kept by itself, as
`Rooms`: whoever holds a slot looks into it and writes into it, closed or not, and only who enters
an objective asks which slot the player has.

    (r p held).active = s.activeIn p held

So `Slots` answers right for every slot (`Shows`), and what is closed is empty.  Nobody writes into
an empty slot but who enters an objective, and nobody enters one into a closed slot, whose number is
not handed out again (`Change.shut`).

Main result: `slot_iff_active`.
-/
import Mathlib.Data.Set.Card
import Questbook.Proofs.Engine.Pruning
import Questbook.Proofs.Engine.Restart
import Questbook.Proofs.Engine.Twin

namespace Questbook

namespace Slots

/-! ### What is found in a held slot -/

section

variable (s : Slots) (p q : PlayerId) (held number : Nat) (o : ObjectId)

/-- In a slot that its player does not have nothing is found. -/
theorem activeIn_of_held?_ne {s : Slots} {p : PlayerId} {held : Nat}
    (h : s.held? p ≠ some held) : s.activeIn p held = ∅ := by
  unfold held? at h
  unfold activeIn
  cases hslot : s.slots.find? p with
  | none => rfl
  | some slot =>
    rw [hslot] at h
    exact if_neg fun heq => h (congrArg some heq)

/-- What enters a slot is found there, and no other slot is touched. -/
theorem activeIn_put (a : Active) : (s.put p o a).activeIn q number =
    if p = q ∧ (s.held? p).getD s.nextNumber = number then (s.activeOf p).insert o a
    else s.activeIn q number := by
  rw [activeIn, slot_put]
  by_cases hp : p = q
  · subst hp
    by_cases hnumber : (s.held? p).getD s.nextNumber = number
    · simp [hnumber]
    · -- the player does not have the slot that is asked for, neither before nor after
      have hbefore : s.activeIn p number = ∅ :=
        activeIn_of_held?_ne fun heq => hnumber (by rw [heq]; rfl)
      simp [hnumber, hbefore]
  · simp only [hp, false_and, if_false]
    rfl

/-- A held slot is changed if its player has it, and no other slot is touched. -/
theorem activeIn_changeIn (hheld : s.held? p = some held)
    (f : Table ObjectId Active → Table ObjectId Active) : (s.changeIn p held f).activeIn q number =
      if p = q ∧ held = number then f (s.activeIn p held) else s.activeIn q number := by
  obtain ⟨slot, hslot, rfl⟩ := Option.map_eq_some_iff.1 hheld
  rw [activeIn, slot_changeIn]
  by_cases hp : p = q
  · subst hp
    by_cases hnumber : slot.number = number <;> simp [activeIn, hslot, hnumber]
  · simp only [hp, false_and, if_false]
    rfl

/-- An empty slot that is closed is found empty as before. -/
theorem activeIn_prune : (s.prune p held).activeIn q number = s.activeIn q number := by
  rw [activeIn, slot_prune]
  by_cases hp : p = q
  · subst hp
    rw [if_pos rfl, activeIn]
    cases hslot : s.slots.find? p with
    | none => rfl
    | some slot =>
      rw [Option.filter_some]
      cases hkept : !(decide (slot.number = held) && slot.active.isEmpty) with
      | true => rfl
      | false =>
        have hclosed : slot.number = held ∧ slot.active.isEmpty = true := by simpa using hkept
        have hempty : slot.active = ∅ := Table.eq_of_entries (List.isEmpty_iff.1 hclosed.2)
        simp [hempty]
  · rw [if_neg hp]
    rfl

/-- A slot in which something is active is not closed. -/
theorem prune_eq_self (h : (s.activeIn p held).isEmpty = false) : s.prune p held = s := by
  unfold prune
  unfold activeIn at h
  split
  · rename_i slot hslot
    rw [hslot] at h
    refine if_neg fun hclosed => ?_
    simp [hclosed.1, hclosed.2] at h
  · rfl

end

/-! ### Slots by themselves -/

/-- A slot by itself, whether or not its player has it still. -/
structure Room where
  active : Table ObjectId Active
  /-- How often something has been written into it. -/
  writes : Nat

/-- Every slot that there has been, by its player and its number. -/
def Rooms : Type := PlayerId → Nat → Room

namespace Rooms

/-- No slot has been opened. -/
def empty : Rooms := fun _ _ => ⟨∅, 0⟩

/-- Something is written into a slot. -/
def write (r : Rooms) (p : PlayerId) (held : Nat) (active : Table ObjectId Active) : Rooms :=
  fun q number =>
    if p = q ∧ held = number then ⟨active, (r p held).writes + 1⟩ else r q number

variable {r : Rooms} {p q : PlayerId} {held number : Nat} {active : Table ObjectId Active}

theorem write_of_ne (h : ¬(p = q ∧ held = number)) : r.write p held active q number = r q number :=
  if_neg h

theorem active_write : (r.write p held active q number).active =
    if p = q ∧ held = number then active else (r q number).active := by
  unfold write
  split <;> rfl

end Rooms

/-- A single change of the slots, and what becomes of them by themselves. -/
inductive Change : Slots × Rooms → Slots × Rooms → Prop
  | issue (s : Slots) (r : Rooms) : Change (s, r) (s.issueEpoch.2, r)
  /-- An objective enters the slot that its player has. -/
  | enter {s : Slots} {r : Rooms} {p : PlayerId} {held : Nat} (hheld : s.held? p = some held)
      (o : ObjectId) (a : Active) :
      Change (s, r) (s.put p o a, r.write p held ((r p held).active.insert o a))
  /-- An objective enters a slot that is opened for it. -/
  | opening {s : Slots} {r : Rooms} {p : PlayerId} (hnone : s.held? p = none) (o : ObjectId)
      (a : Active) : Change (s, r) (s.put p o a,
        r.write p s.nextNumber ((∅ : Table ObjectId Active).insert o a))
  /-- Whoever holds a slot replaces what he finds in it. -/
  | replace {s : Slots} {r : Rooms} {p : PlayerId} {held : Nat} {o : ObjectId} {a : Active}
      (hfound : (r p held).active.find? o = some a) (b : Active) :
      Change (s, r)
        (s.changeIn p held (·.insert o b), r.write p held ((r p held).active.insert o b))
  /-- Whoever holds a slot removes what he finds in it. -/
  | remove {s : Slots} {r : Rooms} {p : PlayerId} {held : Nat} {o : ObjectId} {a : Active}
      (hfound : (r p held).active.find? o = some a) :
      Change (s, r) (s.changeIn p held (·.erase o), r.write p held ((r p held).active.erase o))
  /-- Whoever holds a slot that is empty closes it, if its player has it. -/
  | prune {s : Slots} {r : Rooms} {p : PlayerId} {held : Nat}
      (hempty : (r p held).active.isEmpty = true) : Change (s, r) (s.prune p held, r)

/-- A chain of single changes. -/
abbrev Course : Slots × Rooms → Slots × Rooms → Prop := Relation.ReflTransGen Change

/-- What is found in a slot is what is in it, whoever has it, and no slot has a number that has not
been handed out. -/
structure Shows (x : Slots × Rooms) : Prop where
  active (p : PlayerId) (held : Nat) : (x.2 p held).active = x.1.activeIn p held
  handedOut {p : PlayerId} {held : Nat} (hheld : x.1.held? p = some held) : held < x.1.nextNumber

theorem shows_empty : Shows (empty, Rooms.empty) where
  active _ _ := rfl
  handedOut hheld := by cases hheld

namespace Shows

variable {s : Slots} {r : Rooms} {p : PlayerId} {held : Nat} {o : ObjectId} {a : Active}

theorem find?_eq (h : Shows (s, r)) : (r p held).active.find? o = s.findIn? p held o := by
  rw [findIn?, h.active]

/-- Who finds something in a slot holds the one that its player has. -/
theorem held?_of_find? (h : Shows (s, r)) (hfound : (r p held).active.find? o = some a) :
    s.held? p = some held :=
  s.held?_of_findIn? p held o (h.find?_eq.symm.trans hfound)

theorem put (h : Shows (s, r)) (p : PlayerId) (o : ObjectId) (a : Active) :
    Shows (s.put p o a,
      r.write p ((s.held? p).getD s.nextNumber) ((s.activeOf p).insert o a)) where
  active q number := by
    rw [activeIn_put, Rooms.active_write, h.active q number]
  handedOut {q number} hheld := by
    rw [held?_put] at hheld
    rw [nextNumber_put]
    split at hheld
    · cases hslot : s.held? p with
      | none =>
        rw [hslot] at hheld
        cases hheld
        simp
      | some held =>
        rw [hslot] at hheld
        cases hheld
        simpa using h.handedOut hslot
    · have hbefore := h.handedOut hheld
      dsimp only at hbefore ⊢
      split <;> omega

theorem changeIn (h : Shows (s, r)) (hheld : s.held? p = some held)
    (f : Table ObjectId Active → Table ObjectId Active) :
    Shows (s.changeIn p held f, r.write p held (f (r p held).active)) where
  active q number := by
    rw [activeIn_changeIn _ _ _ _ _ hheld, Rooms.active_write, h.active p held,
      h.active q number]
  handedOut {q number} hheld' := by
    rw [held?_changeIn] at hheld'
    exact (nextNumber_changeIn _ _ _ f).symm ▸ h.handedOut hheld'

theorem prune (h : Shows (s, r)) (p : PlayerId) (held : Nat) : Shows (s.prune p held, r) where
  active q number := (h.active q number).trans (activeIn_prune ..).symm
  handedOut hheld := (nextNumber_prune ..).symm ▸ h.handedOut (held?_of_held?_prune _ _ _ _ hheld)

end Shows

variable {x y z : Slots × Rooms} {p : PlayerId} {held : Nat}

theorem Change.shows (h : Change x y) (hx : Shows x) : Shows y := by
  cases h with
  | issue s r => exact ⟨hx.active, hx.handedOut⟩
  | @enter s r p held hheld o a =>
    have hput := hx.put p o a
    have hactive : (r p held).active = s.activeOf p :=
      (hx.active p held).trans (activeIn_of_held? _ _ _ hheld)
    rwa [hheld, Option.getD_some, ← hactive] at hput
  | @opening s r p hnone o a =>
    have hput := hx.put p o a
    have hactive : s.activeOf p = ∅ := by
      rw [activeOf, Option.map_eq_none_iff.1 hnone]
    rwa [hnone, Option.getD_none, hactive] at hput
  | replace hfound b => exact hx.changeIn (hx.held?_of_find? hfound) (·.insert _ b)
  | remove hfound => exact hx.changeIn (hx.held?_of_find? hfound) (·.erase _)
  | prune hempty => exact hx.prune _ _

/-- A slot has been opened, and its player does not have it. -/
structure Shut (p : PlayerId) (held : Nat) (s : Slots) : Prop where
  handedOut : held < s.nextNumber
  closed : s.held? p ≠ some held

namespace Shut

variable {s : Slots}

theorem ne {q : PlayerId} {number : Nat} (h : s.Shut p held) (hheld : s.held? q = some number) :
    ¬(q = p ∧ number = held) := by
  rintro ⟨rfl, rfl⟩
  exact h.closed hheld

/-- An objective that is entered enters another slot, the one that the player has or a new one. -/
theorem ne_entered (h : s.Shut p held) (q : PlayerId) :
    ¬(q = p ∧ (s.held? q).getD s.nextNumber = held) := by
  cases hheld : s.held? q with
  | none => exact fun heq => Nat.ne_of_gt h.handedOut heq.2
  | some number => exact h.ne hheld

theorem put (h : s.Shut p held) (q : PlayerId) (o : ObjectId) (a : Active) :
    (s.put q o a).Shut p held where
  handedOut := by
    have hlt := h.handedOut
    rw [nextNumber_put]
    split <;> omega
  closed := by
    rw [held?_put]
    split
    · rename_i hq
      exact fun heq => h.ne_entered q ⟨hq, Option.some.inj heq⟩
    · exact h.closed

theorem changeIn (h : s.Shut p held) (q : PlayerId) (number : Nat)
    (f : Table ObjectId Active → Table ObjectId Active) : (s.changeIn q number f).Shut p held where
  handedOut := (nextNumber_changeIn s q number f).symm ▸ h.handedOut
  closed := (held?_changeIn ..).symm ▸ h.closed

theorem prune (h : s.Shut p held) (q : PlayerId) (number : Nat) :
    (s.prune q number).Shut p held where
  handedOut := (nextNumber_prune s q number).symm ▸ h.handedOut
  closed heq := h.closed (held?_of_held?_prune _ _ _ _ heq)

end Shut

/-- A closed slot stays closed, and nothing is written into it. -/
theorem Change.shut (h : Change x y) (hx : Shows x) (hshut : x.1.Shut p held) :
    y.1.Shut p held ∧ y.2 p held = x.2 p held := by
  cases h with
  | issue s r => exact ⟨⟨hshut.handedOut, hshut.closed⟩, rfl⟩
  | enter hheld o a => exact ⟨hshut.put _ o a, Rooms.write_of_ne (hshut.ne hheld)⟩
  | @opening s r q hnone o a =>
    have hne := hshut.ne_entered q
    rw [hnone, Option.getD_none] at hne
    exact ⟨hshut.put q o a, Rooms.write_of_ne hne⟩
  | replace hfound b =>
    have hheld := hx.held?_of_find? hfound
    exact ⟨hshut.changeIn _ _ (·.insert _ b), Rooms.write_of_ne (hshut.ne hheld)⟩
  | remove hfound =>
    have hheld := hx.held?_of_find? hfound
    exact ⟨hshut.changeIn _ _ (·.erase _), Rooms.write_of_ne (hshut.ne hheld)⟩
  | prune => exact ⟨hshut.prune _ _, rfl⟩

theorem Course.shows (h : Course x y) (hx : Shows x) : Shows y := by
  induction h with
  | refl => exact hx
  | tail _ hchange ih => exact hchange.shows ih

theorem Course.shut (h : Course x y) (hx : Shows x) (hshut : x.1.Shut p held) :
    y.1.Shut p held ∧ y.2 p held = x.2 p held := by
  induction h with
  | refl => exact ⟨hshut, rfl⟩
  | tail hbefore hchange ih =>
    obtain ⟨hshut', hsame⟩ := hchange.shut (Course.shows hbefore hx) ih.1
    exact ⟨hshut', hsame.trans ih.2⟩

/-- Numbers are handed out one after the other. -/
theorem Change.nextNumber_le (h : Change x y) : x.1.nextNumber ≤ y.1.nextNumber := by
  cases h with
  | issue => exact le_rfl
  | enter hheld => simp [nextNumber_put, hheld]
  | opening hnone => simp [nextNumber_put, hnone]
  | replace | remove => exact (nextNumber_changeIn ..).ge
  | prune => exact (nextNumber_prune ..).ge

theorem Course.nextNumber_le (h : Course x y) : x.1.nextNumber ≤ y.1.nextNumber := by
  induction h with
  | refl => exact le_rfl
  | tail _ hchange ih => exact ih.trans hchange.nextNumber_le

end Slots

namespace Engine

open Slots

variable {mode : Mode} {e e' e₀ : Engine} {r : Rooms} {p : PlayerId} {id : ObjectId}

/-! ### Steps of the engine as changes of the slots -/

theorem course_enter (e : Engine) (r : Rooms) (p : PlayerId) (id : ObjectId) (data : Json)
    (startedAt : Calendar.Timestamp) :
    ∃ r', Course (e.progress, r) ((e.enter p id data startedAt).2.progress, r') := by
  rw [enter_eq]
  have hissue : Course (e.progress, r) (e.progress.issueEpoch.2, r) := .single (.issue _ _)
  cases hheld : e.progress.held? p with
  | none => exact ⟨_, hissue.tail (.opening (s := e.progress.issueEpoch.2) hheld _ _)⟩
  | some held => exact ⟨_, hissue.tail (.enter (s := e.progress.issueEpoch.2) hheld _ _)⟩

/-- A single step of the engine changes the slots by single changes, whatever slots are held. -/
theorem Step.course (h : Step mode e e') (hr : Shows (e.progress, r)) :
    ∃ r', Course (e.progress, r) (e'.progress, r') := by
  cases h with
  | aside hprogress => exact ⟨r, hprogress ▸ .refl⟩
  | prune e p held =>
    refine ⟨r, ?_⟩
    cases hempty : (r p held).active.isEmpty with
    | true => exact .single (.prune hempty)
    | false =>
      rw [hr.active p held] at hempty
      rw [pruned, prune_eq_self _ _ _ hempty]
  | start => exact course_enter ..
  | restore => exact course_enter ..
  | store hactive data => exact ⟨_, .single (.replace (hr.find?_eq.trans hactive) _)⟩
  | cancel hactive => exact ⟨_, .single (.remove (hr.find?_eq.trans hactive))⟩
  | complete hactive => exact ⟨_, .single (.remove (hr.find?_eq.trans hactive))⟩
  | drop hactive => exact ⟨_, .single (.remove (hr.find?_eq.trans hactive))⟩
  | renew hactive =>
    have hfound := hr.find?_eq.trans hactive
    exact ⟨_, (Relation.ReflTransGen.single (.issue _ _)).tail (.replace hfound _)⟩

theorem Steps.course (h : Steps mode e e') (hr : Shows (e.progress, r)) :
    ∃ r', Course (e.progress, r) (e'.progress, r') := by
  induction h with
  | refl => exact ⟨r, .refl⟩
  | tail _ hstep ih =>
    obtain ⟨r₁, hbefore⟩ := ih
    obtain ⟨r', hafter⟩ := hstep.course (hbefore.shows hr)
    exact ⟨r', hbefore.trans hafter⟩

/-! ### Runs -/

theorem progress_setting (c : Command) (e : Engine) : (c.setting e).progress = e.progress := by
  cases c <;> rfl

theorem course_of_performAll {levels : Nat} {cs : List Command} (hr : Shows (e₀.progress, r))
    (hrun : performAll levels cs e₀ = .ok e) :
    ∃ r', Course (e₀.progress, r) (e.progress, r') := by
  induction cs using List.reverseRecOn generalizing e with
  | nil =>
    cases hrun
    exact ⟨r, .refl⟩
  | append_singleton cs c ih =>
    obtain ⟨e₁, answer, hbefore, hlast⟩ := performAll_concat hrun
    obtain ⟨r₁, hcourse⟩ := ih hbefore
    have hsteps := perform_steps hlast
    rw [← progress_setting c e₁] at hcourse
    obtain ⟨r', hafter⟩ := hsteps.course (hcourse.shows hr)
    exact ⟨r', hcourse.trans hafter⟩

/-- **A slot for whoever has something active.**  Between the commands of a run, whatever they have
answered, those players have a slot for whom an objective is active, and as many players are tracked
as there are of them.  The slots have come there by single changes from none, and from one moment of
a command to a later one they come by single changes too; what is found in a slot is then what is in
it, whether its player has it or not; and a slot that somebody may have found and that its player
does not have any more is never his again, is empty, and is never written into again. -/
theorem slot_iff_active {levels : Nat} {cs : List Command} (he₀ : e₀.progress = Slots.empty)
    (hrun : performAll levels cs e₀ = .ok e) :
    (∀ p, (∃ held, e.progress.held? p = some held) ↔ ∃ o, e.progress.isActive p o = true) ∧
    e.progress.tracked = Set.encard {p | ∃ o, e.progress.isActive p o = true} ∧
    (∃ r, Course (Slots.empty, Rooms.empty) (e.progress, r)) ∧
    (∀ (c : Command) m m' r, Steps c.mode (c.setting e) m → Steps c.mode m m' →
      Course (Slots.empty, Rooms.empty) (m.progress, r) →
        ∃ r', Course (m.progress, r) (m'.progress, r')) ∧
    (∀ x, Course (Slots.empty, Rooms.empty) x →
      ∀ p held, (x.2 p held).active = x.1.activeIn p held) ∧
    ∀ p held x y z, Course (Slots.empty, Rooms.empty) x → x.1.held? p = some held →
      Course x y → y.1.held? p ≠ some held → Course y z →
        z.1.held? p ≠ some held ∧ (z.2 p held).active = ∅ ∧
          (z.2 p held).writes = (y.2 p held).writes := by
  have htidy : e.progress.Tidy := tidy_of_performAll (he₀ ▸ tidy_empty) hrun
  have hkeys : ∀ p, p ∈ e.progress.slots.keys ↔ ∃ o, e.progress.isActive p o = true :=
    fun p => htidy.mem_keys_iff
  refine ⟨fun p => ?_, ?_, ?_,
    fun c m m' r _ hsteps hcourse => hsteps.course (hcourse.shows shows_empty),
    fun x hx => (hx.shows shows_empty).active, ?_⟩
  · rw [← hkeys, ← Table.contains_iff_mem_keys, Table.contains, Option.isSome_iff_exists]
    simp [held?]
  · have hset : {p | ∃ o, e.progress.isActive p o = true} = ↑e.progress.slots.keys.toFinset := by
      ext p
      simp [hkeys]
    have hnodup : e.progress.slots.keys.Nodup := e.progress.slots.distinct
    rw [hset, Set.encard_coe_eq_coe_finsetCard, List.toFinset_card_of_nodup hnodup]
    simp [tracked, Table.size, Table.keys]
  · have hshows : Shows (e₀.progress, Rooms.empty) := he₀ ▸ shows_empty
    exact he₀ ▸ course_of_performAll hshows hrun
  · intro p held x y z hx hheld hxy hclosed hyz
    have hxs := hx.shows shows_empty
    have hys := hxy.shows hxs
    have hshut : y.1.Shut p held :=
      ⟨(hxs.handedOut hheld).trans_le hxy.nextNumber_le, hclosed⟩
    obtain ⟨hshut', hsame⟩ := hyz.shut hys hshut
    refine ⟨hshut'.closed, ?_, congrArg Room.writes hsame⟩
    rw [(hyz.shows hys).active p held]
    exact activeIn_of_held?_ne hshut'.closed

/-- The first objective of the hunt is completed: its slot is left empty, closed by the first of its
events and followed by another one through the second, before the completion is done with it.  The
changes that this takes leave the first slot as it was when it was closed, written into twice. -/
theorem slot_iff_active_of_hunt :
    (∃ e, performAll 1 (hunting ["first"] ++
        [.request ⟨"ann"⟩ (.completeObjective (quarry "first"))]) idle = .ok e ∧
      e.progress.held? ⟨"ann"⟩ = some 1 ∧ (∃ o, e.progress.isActive ⟨"ann"⟩ o = true) ∧
      Set.encard {p | ∃ o, e.progress.isActive p o = true} = 1) ∧
    ∃ y z : Slots × Rooms, Course y z ∧ y.1.held? ⟨"ann"⟩ = none ∧ z.1.held? ⟨"ann"⟩ = some 1 ∧
      (z.2 ⟨"ann"⟩ 0).active = ∅ ∧ (z.2 ⟨"ann"⟩ 0).writes = 2 := by
  have h : passes (performAll 1 (hunting ["first"] ++
      [.request ⟨"ann"⟩ (.completeObjective (quarry "first"))]) idle) (fun e =>
        e.progress.held? ⟨"ann"⟩ == some 1 && e.progress.tracked == 1) = true := by
    rw [hunting, hunted_eq]
    decide +kernel
  obtain ⟨e, hrun, h⟩ := exists_of_passes h
  simp only [Bool.and_eq_true, beq_iff_eq] at h
  obtain ⟨hheld, htracked⟩ := h
  obtain ⟨hiff, hcount, -, -, -, hclosed⟩ := slot_iff_active rfl hrun
  refine ⟨⟨e, hrun, hheld, (hiff _).1 ⟨1, hheld⟩, hcount.symm.trans (by rw [htracked]; rfl)⟩, ?_⟩
  let ann : PlayerId := ⟨"ann"⟩
  let o : ObjectId := quarry "first"
  let a : Active := ⟨.null, 0, ⟨0, 0⟩⟩
  let x : Slots × Rooms :=
    (Slots.empty.put ann o a, Rooms.empty.write ann 0 ((∅ : Table _ _).insert o a))
  let y : Slots × Rooms := ((x.1.changeIn ann 0 (·.erase o)).prune ann 0,
    x.2.write ann 0 ((x.2 ann 0).active.erase o))
  let z : Slots × Rooms := (y.1.put ann o a, y.2.write ann 1 ((∅ : Table _ _).insert o a))
  have hx : Course (Slots.empty, Rooms.empty) x := .single (.opening rfl o a)
  have hfound : (x.2 ann 0).active.find? o = some a := rfl
  have hxy : Course x y := (Relation.ReflTransGen.single (.remove hfound)).tail (.prune rfl)
  have hyz : Course y z := .single (.opening rfl o a)
  obtain ⟨-, hempty, hwrites⟩ := hclosed ann 0 x y z hx rfl hxy (by decide) hyz
  exact ⟨y, z, hyz, rfl, rfl, hempty, hwrites.trans rfl⟩

end Engine

end Questbook
