/-
Questbook/Proofs/Engine/Ledger.lean

The life of an epoch.

Of the engine's state the ledger keeps no more than who is active under which epoch, and the
journal.  On it every step of progress comes down to four moves: an objective is entered under the
next epoch, progress is stored, an objective ends, or it ends as completed and is rewarded.  What
is active already has to end before it is entered again, which is how a restored record or a reload
replaces it.

From these moves the life of an epoch is read off as a path through three stages,

    unborn  →  running (stores 0, 1, 2, …)  →  closed,

and the stage determines all that the journal says under the epoch.  Since `closed` leads nowhere,
nothing happens under an epoch that has ended, whatever goes on under others.
-/
import Mathlib.Data.List.Basic
import Questbook.Proofs.Engine.Perform

namespace Questbook

theorem Journal.under_cons (x : JournalEntry) (j : Journal) (epoch : Nat) :
    Journal.under (x :: j) epoch =
      if x.epoch = epoch then j.under epoch ++ [x] else j.under epoch := by
  by_cases hx : x.epoch = epoch <;> simp [Journal.under, hx]

theorem Journal.times_cons (x : JournalEntry) (j : Journal) (epoch : Nat) (what : Happening) :
    Journal.times (x :: j) epoch what =
      j.times epoch what + if x.epoch = epoch ∧ x.what = what then 1 else 0 := by
  unfold Journal.times
  rw [Journal.under_cons]
  by_cases hx : x.epoch = epoch
  · simp [hx, List.countP_append, List.countP_cons]
  · simp [hx]

/-- What is in the journal has happened. -/
theorem Journal.times_pos {j : Journal} {x : JournalEntry} (hx : x ∈ j) :
    0 < j.times x.epoch x.what :=
  List.countP_pos_iff.2 ⟨x, by simpa [under] using hx, by simp⟩

/-- Who is active under which epoch, and what has happened. -/
@[ext] structure Ledger where
  current : PlayerId → ObjectId → Option Nat
  nextEpoch : Nat
  journal : Journal

namespace Ledger

/-- Set the epoch of one objective. -/
def assign (l : Ledger) (p : PlayerId) (o : ObjectId) (now : Option Nat) : Ledger :=
  { l with current := fun q x => if p = q ∧ o = x then now else l.current q x }

/-- Write into the journal. -/
def mark (l : Ledger) (p : PlayerId) (o : ObjectId) (epoch : Nat) (what : Happening) : Ledger :=
  { l with journal := ⟨p, o, epoch, what⟩ :: l.journal }

/-- Give out the next epoch. -/
def issue (l : Ledger) : Ledger := { l with nextEpoch := l.nextEpoch + 1 }

/-- A move of the ledger. -/
inductive Move : Ledger → Ledger → Prop
  | enter {l : Ledger} {p : PlayerId} {o : ObjectId} (hnone : l.current p o = none) :
      Move l ((l.issue.assign p o (some l.nextEpoch)).mark p o l.nextEpoch .entered)
  | store {l : Ledger} {p : PlayerId} {o : ObjectId} {epoch : Nat}
      (hcurrent : l.current p o = some epoch) : Move l (l.mark p o epoch .stored)
  | quit {l : Ledger} {p : PlayerId} {o : ObjectId} {epoch : Nat} {how : Ending}
      (hcurrent : l.current p o = some epoch) (hhow : how ≠ .completed) :
      Move l ((l.assign p o none).mark p o epoch (.ended how))
  | complete {l : Ledger} {p : PlayerId} {o : ObjectId} {epoch : Nat}
      (hcurrent : l.current p o = some epoch) :
      Move l (((l.assign p o none).mark p o epoch (.ended .completed)).mark p o epoch .rewarded)

/-- A chain of moves. -/
abbrev Moves : Ledger → Ledger → Prop := Relation.ReflTransGen Move

/-! ### Stages -/

/-- Where an epoch stands. -/
inductive Stage where
  | unborn
  /-- Active, and progress was stored so many times. -/
  | running (p : PlayerId) (o : ObjectId) (stores : Nat)
  | closed (p : PlayerId) (o : ObjectId) (stores : Nat) (how : Ending)

namespace Stage

/-- What happens when an objective ends; completion alone is rewarded. -/
def close : Ending → List Happening
  | .completed => [.ended .completed, .rewarded]
  | how => [.ended how]

/-- What has happened under an epoch in a stage, oldest first. -/
def happenings : Stage → List Happening
  | unborn => []
  | running _ _ stores => .entered :: List.replicate stores .stored
  | closed _ _ stores how => .entered :: (List.replicate stores .stored ++ close how)

/-- To whom an epoch belongs, once it is born. -/
def owner : Stage → PlayerId × ObjectId
  | unborn => default
  | running p o _ => (p, o)
  | closed p o _ _ => (p, o)

/-- Who is active under an epoch in a stage. -/
def holder : Stage → Option (PlayerId × ObjectId)
  | running p o _ => some (p, o)
  | _ => none

/-- What the journal says under an epoch in a stage. -/
def course (epoch : Nat) (φ : Stage) : List JournalEntry :=
  φ.happenings.map (JournalEntry.mk φ.owner.1 φ.owner.2 epoch)

theorem map_what_course (φ : Stage) (epoch : Nat) :
    (φ.course epoch).map JournalEntry.what = φ.happenings := by
  rw [course, List.map_map]
  exact List.map_id _

theorem countP_course (φ : Stage) (epoch : Nat) (what : Happening) :
    (φ.course epoch).countP (·.what = what) = φ.happenings.count what := by
  unfold course
  rw [List.countP_map]
  exact List.countP_congr fun x _ => by simp

theorem count_entered_le (φ : Stage) : φ.happenings.count .entered ≤ 1 := by
  cases φ with
  | closed p o stores how => cases how <;> simp [happenings, close, List.count_replicate]
  | _ => simp [happenings, List.count_replicate]

/-- An epoch is rewarded as often as it is completed, -/
theorem count_rewarded (φ : Stage) :
    φ.happenings.count .rewarded = φ.happenings.count (.ended .completed) := by
  cases φ with
  | closed p o stores how => cases how <;> simp [happenings, close, List.count_replicate]
  | _ => simp [happenings, List.count_replicate]

/-- and once at most. -/
theorem count_rewarded_le (φ : Stage) : φ.happenings.count .rewarded ≤ 1 := by
  cases φ with
  | closed p o stores how => cases how <;> simp [happenings, close, List.count_replicate]
  | _ => simp [happenings, List.count_replicate]

/-- An epoch that has ended is closed, and it has ended in one way only. -/
theorem eq_closed_of_count {φ : Stage} {how : Ending} (h : 0 < φ.happenings.count (.ended how)) :
    ∃ p o stores, φ = closed p o stores how := by
  cases φ with
  | closed p o stores how' =>
    have hhow : how' = how := by
      revert h
      cases how' <;> cases how <;> simp [happenings, close, List.count_replicate]
    subst hhow
    exact ⟨p, o, stores, rfl⟩
  | _ => simp [happenings, List.count_replicate] at h

/-- All that comes after an end is the reward of a completion. -/
theorem eq_reward_of_ended {φ : Stage} {earlier later : List Happening} {how : Ending}
    (h : φ.happenings = earlier ++ .ended how :: later) :
    later = if how = .completed then [.rewarded] else [] := by
  have hmem : .ended how ∈ φ.happenings := by simp [h]
  obtain ⟨p, o, stores, rfl⟩ := eq_closed_of_count (List.count_pos_iff.2 hmem)
  have hclose : close how = .ended how :: if how = .completed then [.rewarded] else [] := by
    cases how <;> rfl
  rw [happenings, hclose, ← List.cons_append] at h
  have hbefore : .ended how ∉ .entered :: List.replicate stores Happening.stored := by simp
  have hafter : .ended how ∉ if how = .completed then [Happening.rewarded] else [] := by
    split <;> simp
  -- There is one end only, so that the two lists are cut at the same place.
  exact ((List.append_cons_inj_of_notMem hbefore hafter).1 h).2.2.symm

/-- What an epoch may go through. -/
inductive Next : Stage → Stage → Prop
  | enter (p : PlayerId) (o : ObjectId) : Next unborn (running p o 0)
  | store (p : PlayerId) (o : ObjectId) (stores : Nat) :
      Next (running p o stores) (running p o (stores + 1))
  | close (p : PlayerId) (o : ObjectId) (stores : Nat) (how : Ending) :
      Next (running p o stores) (closed p o stores how)

/-- What an epoch may come to. -/
abbrev Leads : Stage → Stage → Prop := Relation.ReflTransGen Next

variable {p : PlayerId} {o : ObjectId}

/-- An epoch that is closed has come to its end. -/
theorem eq_of_leads_closed {stores : Nat} {how : Ending} {φ : Stage}
    (h : Leads (closed p o stores how) φ) : φ = closed p o stores how := by
  induction h with
  | refl => rfl
  | tail _ hnext ih =>
    subst ih
    cases hnext

/-- An epoch that is running has been so, or was not born yet. -/
theorem of_leads_running {stores : Nat} {φ : Stage} (h : Leads φ (running p o stores)) :
    φ = unborn ∨ ∃ earlier, φ = running p o earlier := by
  induction h using Relation.ReflTransGen.head_induction_on with
  | refl => exact .inr ⟨stores, rfl⟩
  | head hnext _ ih =>
    rcases ih with rfl | ⟨earlier, rfl⟩
    · cases hnext
    · cases hnext with
      | enter => exact .inl rfl
      | store => exact .inr ⟨_, rfl⟩

/-- What is running goes on running or is closed. -/
theorem of_running_leads {stores : Nat} {φ : Stage} (h : Leads (running p o stores) φ) :
    (∃ stores, φ = running p o stores) ∨ ∃ stores how, φ = closed p o stores how := by
  induction h with
  | refl => exact .inl ⟨stores, rfl⟩
  | tail _ hnext ih =>
    rcases ih with ⟨_, rfl⟩ | ⟨_, _, rfl⟩
    · cases hnext with
      | store => exact .inl ⟨_, rfl⟩
      | close => exact .inr ⟨_, _, rfl⟩
    · cases hnext

end Stage

variable {l l' : Ledger} {p q : PlayerId} {o x : ObjectId} {epoch : Nat}

/-- An epoch is in a stage: the journal and who is active are as the stage has it. -/
structure At (l : Ledger) (epoch : Nat) (φ : Stage) : Prop where
  course : l.journal.under epoch = φ.course epoch
  holder : ∀ q x, l.current q x = some epoch ↔ φ.holder = some (q, x)
  unborn : φ = .unborn ↔ l.nextEpoch ≤ epoch

/-- The epoch of what is active is running. -/
theorem At.running_of_current {φ : Stage} (h : l.At epoch φ)
    (hcurrent : l.current p o = some epoch) : ∃ stores, φ = .running p o stores := by
  have hholder : φ.holder = some (p, o) := (h.holder p o).1 hcurrent
  cases φ with
  | running q x stores =>
    obtain ⟨rfl, rfl⟩ : q = p ∧ x = o := by simpa [Stage.holder] using hholder
    exact ⟨stores, rfl⟩
  | _ => cases hholder

/-- A move does not concern an epoch that is neither written about nor given up nor taken up. -/
theorem At.elsewhere {φ : Stage} {now : Option Nat} (h : l.At epoch φ)
    (hjournal : l'.journal.under epoch = l.journal.under epoch)
    (hcurrent : l'.current = (l.assign p o now).current) (hbefore : l.current p o ≠ some epoch)
    (hnow : now ≠ some epoch) (hnext : l'.nextEpoch ≤ epoch ↔ l.nextEpoch ≤ epoch) :
    l'.At epoch φ where
  course := hjournal.trans h.course
  holder q x := by
    rw [hcurrent, ← h.holder]
    by_cases hkey : p = q ∧ o = x
    · obtain ⟨rfl, rfl⟩ := hkey
      simp [assign, hbefore, hnow]
    · simp [assign, hkey]
  unborn := h.unborn.trans hnext.symm

/-- An objective that ends takes its epoch to its last stage. -/
theorem At.close {stores : Nat} {how : Ending} (h : l.At epoch (.running p o stores))
    (hjournal : l'.journal.under epoch =
      l.journal.under epoch ++ (Stage.close how).map (JournalEntry.mk p o epoch))
    (hcurrent : l'.current = (l.assign p o none).current) (hnext : l'.nextEpoch = l.nextEpoch) :
    l'.At epoch (.closed p o stores how) where
  course := by
    rw [hjournal, h.course]
    simp [Stage.course, Stage.happenings, Stage.owner]
  holder q x := by
    have hholder := h.holder q x
    rw [hcurrent]
    by_cases hkey : p = q ∧ o = x
    · simp [assign, hkey, Stage.holder]
    · simp [assign, hkey, hholder, Stage.holder]
  unborn := by
    rw [hnext, ← h.unborn]
    simp

/-- What is active is begun anew by an end and an entry. -/
theorem Moves.renew (hcurrent : l.current p o = some epoch)
    (hassign : l'.current = (l.assign p o (some l.nextEpoch)).current)
    (hnext : l'.nextEpoch = l.nextEpoch + 1)
    (hjournal : l'.journal =
      ⟨p, o, l.nextEpoch, .entered⟩ :: ⟨p, o, epoch, .ended .renewed⟩ :: l.journal) :
    Moves l l' := by
  let ended := (l.assign p o none).mark p o epoch (.ended .renewed)
  let entered := (ended.issue.assign p o (some l.nextEpoch)).mark p o l.nextEpoch .entered
  have hquit : Move l ended := .quit hcurrent nofun
  have henter : Move ended entered := .enter (by simp [ended, assign, mark])
  have heq : l' = entered := by
    refine Ledger.ext ?_ hnext hjournal
    rw [hassign]
    funext q x
    by_cases hkey : p = q ∧ o = x <;> simp [entered, ended, assign, issue, mark, hkey]
  exact .tail (.single hquit) (heq ▸ henter)

theorem Moves.nextEpoch_le (h : Moves l l') : l.nextEpoch ≤ l'.nextEpoch := by
  induction h with
  | refl => exact Nat.le_refl _
  | tail _ hmove ih =>
    cases hmove with
    | enter => exact Nat.le_succ_of_le ih
    | store | quit | complete => exact ih

/-! ### What a move does to an epoch -/

variable {φ : Stage} {now : Nat}

/-- An entry takes the epoch it issues from nothing to running. -/
theorem At.enter (h : l.At epoch φ) (hnone : l.current p o = none) : ∃ φ',
    ((l.issue.assign p o (some l.nextEpoch)).mark p o l.nextEpoch .entered).At epoch φ' ∧
      Relation.ReflGen Stage.Next φ φ' := by
  by_cases hepoch : l.nextEpoch = epoch
  · subst hepoch
    obtain rfl : φ = .unborn := h.unborn.2 (Nat.le_refl _)
    refine ⟨.running p o 0, ⟨?_, fun q x => ?_, ?_⟩, .single (.enter p o)⟩
    · simp [mark, assign, issue, Journal.under_cons, h.course, Stage.course,
        Stage.happenings, Stage.owner]
    · have hholder := h.holder q x
      by_cases hkey : p = q ∧ o = x
      · simp [mark, assign, hkey, Stage.holder]
      · simpa [mark, assign, issue, hkey, Stage.holder] using hholder
    · simp [mark, assign, issue]
  · refine ⟨φ, h.elsewhere ?_ rfl (by simp [hnone]) (by simpa using hepoch) ?_, .refl⟩
    · simp [mark, assign, issue, Journal.under_cons, hepoch]
    · show l.nextEpoch + 1 ≤ epoch ↔ l.nextEpoch ≤ epoch
      omega

/-- Storing progress changes nobody's epoch; the one it is stored under goes on running. -/
theorem At.store (h : l.At epoch φ) (hcurrent : l.current p o = some now) :
    ∃ φ', (l.mark p o now .stored).At epoch φ' ∧ Relation.ReflGen Stage.Next φ φ' := by
  by_cases hepoch : now = epoch
  · subst hepoch
    obtain ⟨stores, rfl⟩ := h.running_of_current hcurrent
    refine ⟨.running p o (stores + 1), ⟨?_, h.holder, ?_⟩, .single (.store p o stores)⟩
    · simp [mark, Journal.under_cons, h.course, Stage.course, Stage.happenings, Stage.owner,
        List.replicate_succ']
    · simpa [mark] using h.unborn
  · refine ⟨φ, ⟨?_, h.holder, h.unborn⟩, .refl⟩
    simpa [mark, Journal.under_cons, hepoch] using h.course

/-- An end, in whatever way, closes the epoch that was active and no other one. -/
theorem At.finish (h : l.At epoch φ) (how : Ending) (hcurrent : l.current p o = some now)
    (hassign : l'.current = (l.assign p o none).current) (hnext : l'.nextEpoch = l.nextEpoch)
    (hjournal : l'.journal.under epoch = l.journal.under epoch ++
      if now = epoch then (Stage.close how).map (JournalEntry.mk p o epoch) else []) :
    ∃ φ', l'.At epoch φ' ∧ Relation.ReflGen Stage.Next φ φ' := by
  by_cases hepoch : now = epoch
  · subst hepoch
    rw [if_pos rfl] at hjournal
    obtain ⟨stores, rfl⟩ := h.running_of_current hcurrent
    exact ⟨.closed p o stores how, h.close hjournal hassign hnext, .single (.close p o stores how)⟩
  · rw [if_neg hepoch, List.append_nil] at hjournal
    have hother : l.current p o ≠ some epoch := by simpa [hcurrent] using hepoch
    exact ⟨φ, h.elsewhere hjournal hassign hother nofun (by rw [hnext]), .refl⟩

/-- A move takes each epoch to its next stage, or leaves it where it is. -/
theorem Move.at (hmove : Move l l') (h : l.At epoch φ) :
    ∃ φ', l'.At epoch φ' ∧ Relation.ReflGen Stage.Next φ φ' := by
  cases hmove with
  | enter hnone => exact h.enter hnone
  | store hcurrent => exact h.store hcurrent
  | @quit p o now how hcurrent hhow =>
    have hclose : Stage.close how = [.ended how] := by
      cases how <;> first | rfl | exact absurd rfl hhow
    refine h.finish how hcurrent rfl rfl ?_
    by_cases hepoch : now = epoch <;> simp [mark, assign, Journal.under_cons, hclose, hepoch]
  | @complete p o now hcurrent =>
    -- The end and the reward are written together, which is what the last stage has.
    refine h.finish .completed hcurrent rfl rfl ?_
    by_cases hepoch : now = epoch <;> simp [mark, assign, Journal.under_cons, Stage.close, hepoch]

/-- A chain of moves leads each epoch through its stages. -/
theorem Moves.at (hmoves : Moves l l') (h : l.At epoch φ) :
    ∃ φ', l'.At epoch φ' ∧ Stage.Leads φ φ' := by
  induction hmoves with
  | refl => exact ⟨φ, h, .refl⟩
  | tail _ hmove ih =>
    obtain ⟨φ₁, h₁, hleads⟩ := ih
    obtain ⟨φ₂, h₂, hnext⟩ := hmove.at h₁
    exact ⟨φ₂, h₂, hleads.trans hnext.to_reflTransGen⟩

end Ledger

end Questbook
