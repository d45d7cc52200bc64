/-
Questbook/Proofs/Engine/Twin.lean

Two engines that are the same to a player.

One engine may serve other players besides, and the other may not.  Blocks, notes, the archive and
the dice are not a player's own, so that the dice may show other numbers to him, as long as they
keep within their range on both sides.  And numbers (epochs, slots, sessions) are handed out to all
players in turn, so that the same objective has one epoch here and another one there.  `Names` tells
which numbers stand for each other: each at most once, and none that is still to be handed out.
Under such names everything else that a player has is the same in both engines.

Every change that is made for the player on both sides leads from twins to twins, and what spares
the player on one side does so as well.
-/
import Mathlib.Order.Basic
import Questbook.Proofs.Engine.Demands
import Questbook.Proofs.Engine.Dice
import Questbook.Proofs.Engine.Schedule

namespace Questbook

/-! ### Names -/

/-- What has a number of its own. -/
inductive Counter where
  | epoch
  | slot
  | session
deriving DecidableEq

/-- Which numbers of two engines stand for each other. -/
abbrev Names := Counter → Nat → Nat → Prop

/-- Numbers below two bounds stand for each other, each for at most one. -/
structure OneToOne (R : Nat → Nat → Prop) (bound bound' : Nat) : Prop where
  iff {a b a' b' : Nat} (ha : R a a') (hb : R b b') : a = b ↔ a' = b'
  left {a a' : Nat} (h : R a a') : a < bound
  right {a a' : Nat} (h : R a a') : a' < bound'

theorem OneToOne.mono {R : Nat → Nat → Prop} {m m' k k' : Nat} (h : OneToOne R m m') (hm : m ≤ k)
    (hm' : m' ≤ k') : OneToOne R k k' :=
  ⟨h.iff, fun hR => (h.left hR).trans_le hm, fun hR => (h.right hR).trans_le hm'⟩

/-- The next numbers stand for each other. -/
theorem OneToOne.next {R : Nat → Nat → Prop} {m m' : Nat} (h : OneToOne R m m') :
    OneToOne (fun a a' => R a a' ∨ (a = m ∧ a' = m')) (m + 1) (m' + 1) where
  iff {a b a' b'} ha hb := by
    rcases ha with ha | ⟨rfl, rfl⟩ <;> rcases hb with hb | ⟨rfl, rfl⟩
    · exact h.iff ha hb
    · have := h.left ha
      have := h.right ha
      omega
    · have := h.left hb
      have := h.right hb
      omega
    · exact ⟨fun _ => rfl, fun _ => rfl⟩
  left {a a'} hR := by
    rcases hR with hR | ⟨rfl, rfl⟩
    · exact Nat.lt_succ_of_lt (h.left hR)
    · exact Nat.lt_succ_self _
  right {a a'} hR := by
    rcases hR with hR | ⟨rfl, rfl⟩
    · exact Nat.lt_succ_of_lt (h.right hR)
    · exact Nat.lt_succ_self _

/-- Two more numbers that stand for each other. -/
def Names.add (N : Names) (c : Counter) (a a' : Nat) : Names :=
  fun d b b' => N d b b' ∨ (d = c ∧ b = a ∧ b' = a')

theorem Names.le_add (N : Names) (c : Counter) (a a' : Nat) : N ≤ N.add c a a' :=
  fun _ _ _ h => .inl h

theorem Names.add_self (N : Names) (c : Counter) (a a' : Nat) : N.add c a a' c a a' :=
  .inr ⟨rfl, rfl, rfl⟩

/-- The next number of an engine. -/
def Engine.next (e : Engine) : Counter → Nat
  | .epoch => e.progress.nextEpoch
  | .slot => e.progress.nextNumber
  | .session => e.sessions.nextNumber

/-- Numbers of two engines stand for each other, each for at most one. -/
def Names.Fit (N : Names) (e e' : Engine) : Prop := ∀ c, OneToOne (N c) (e.next c) (e'.next c)

/-- A number is handed out on both sides. -/
theorem Names.Fit.add {N : Names} {e e' e₁ e₁' : Engine} (h : N.Fit e e') (c : Counter)
    (hnext : ∀ d, e₁.next d = if d = c then e.next d + 1 else e.next d)
    (hnext' : ∀ d, e₁'.next d = if d = c then e'.next d + 1 else e'.next d) :
    (N.add c (e.next c) (e'.next c)).Fit e₁ e₁' := by
  intro d
  rw [hnext, hnext']
  by_cases hd : d = c
  · subst hd
    rw [if_pos rfl, if_pos rfl]
    have hone := (h d).next
    refine ⟨fun ha hb => hone.iff (ha.imp_right And.right) (hb.imp_right And.right),
      fun hR => hone.left (hR.imp_right And.right), fun hR => hone.right (hR.imp_right And.right)⟩
  · have hsame : N.add c (e.next c) (e'.next c) d = N d := by
      funext a a'
      simp [Names.add, hd]
    rw [if_neg hd, if_neg hd, hsame]
    exact h d

/-! ### Tables -/

namespace Table

variable {κ ν : Type} {R S : ν → ν → Prop} {t t' : Table κ ν}

/-- Two tables have the same keys, in the same order, with values that are related. -/
def Twin (R : ν → ν → Prop) (t t' : Table κ ν) : Prop :=
  List.Forall₂ (fun x x' => x'.1 = x.1 ∧ R x.2 x'.2) t.entries t'.entries

theorem Twin.mono (h : t.Twin R t') (hS : ∀ v v', R v v' → S v v') : t.Twin S t' :=
  List.Forall₂.imp (fun _ _ hx => ⟨hx.1, hS _ _ hx.2⟩) h

theorem Twin.keys (h : t.Twin R t') : t'.keys = t.keys := by
  unfold Twin at h
  unfold Table.keys
  generalize t.entries = l at h ⊢
  generalize t'.entries = l' at h ⊢
  induction h with
  | nil => rfl
  | cons hx _ ih => rw [List.map_cons, List.map_cons, ih, hx.1]

theorem Twin.isEmpty (h : t.Twin R t') : t'.isEmpty = t.isEmpty := by
  unfold Twin at h
  unfold Table.isEmpty
  generalize t.entries = l at h ⊢
  generalize t'.entries = l' at h ⊢
  cases h <;> rfl

variable [DecidableEq κ]

theorem Twin.find? (h : t.Twin R t') (k : κ) : Option.Rel R (t.find? k) (t'.find? k) := by
  unfold Twin at h
  unfold Table.find?
  generalize t.entries = l at h ⊢
  generalize t'.entries = l' at h ⊢
  induction h with
  | nil => exact .none
  | @cons x x' _ _ hx _ ih =>
    obtain ⟨a, v⟩ := x
    obtain ⟨a', v'⟩ := x'
    obtain ⟨rfl, hv⟩ := hx
    by_cases hk : a' = k
    · simp only [lookup, if_pos hk]
      exact .some hv
    · simpa only [lookup, if_neg hk] using ih

theorem Twin.insert (h : t.Twin R t') (k : κ) {v v' : ν} (hv : R v v') :
    (t.insert k v).Twin R (t'.insert k v') := by
  unfold Twin at h
  show List.Forall₂ _ (put k v t.entries) (put k v' t'.entries)
  generalize t.entries = l at h ⊢
  generalize t'.entries = l' at h ⊢
  induction h with
  | nil => exact .cons ⟨rfl, hv⟩ .nil
  | @cons x x' _ _ hx hrest ih =>
    obtain ⟨a, w⟩ := x
    obtain ⟨a', w'⟩ := x'
    obtain ⟨rfl, hw⟩ := hx
    by_cases hk : a' = k
    · simp only [put, if_pos hk]
      exact .cons ⟨rfl, hv⟩ hrest
    · simp only [put, if_neg hk]
      exact .cons ⟨rfl, hw⟩ ih

theorem Twin.erase (h : t.Twin R t') (k : κ) : (t.erase k).Twin R (t'.erase k) := by
  unfold Twin at h
  show List.Forall₂ _ (drop k t.entries) (drop k t'.entries)
  generalize t.entries = l at h ⊢
  generalize t'.entries = l' at h ⊢
  induction h with
  | nil => exact .nil
  | @cons x x' _ _ hx hrest ih =>
    obtain ⟨a, w⟩ := x
    obtain ⟨a', w'⟩ := x'
    obtain ⟨rfl, hw⟩ := hx
    by_cases hk : a' = k
    · simpa only [drop, if_pos hk] using ih
    · simp only [drop, if_neg hk]
      exact .cons ⟨rfl, hw⟩ ih

end Table

/-! ### What a player has -/

/-- The same progress since the same start. -/
structure Active.Twin (N : Names) (a a' : Active) : Prop where
  data : a'.data = a.data
  startedAt : a'.startedAt = a.startedAt
  epoch : N .epoch a.epoch a'.epoch

/-- Slots with the same objectives active in them. -/
structure Slot.Twin (N : Names) (s s' : Slot) : Prop where
  number : N .slot s.number s'.number
  active : s.active.Twin (Active.Twin N) s'.active

/-- The same conversation, at the same point; its content keeps within `A`. -/
structure Session.Twin (A : Set Demand) (N : Names) (s s' : Session) : Prop where
  number : N .session s.number s'.number
  same : s' = { s with number := s'.number }
  within : s.talk.demands true ⊆ A

/-- The same work for a player, or the same reminder. -/
inductive Task.Twin (p : PlayerId) (N : Names) : Task → Task → Prop where
  | fire {events : List EventRef} (hcertain : Action.demandsOf true events ⊆ Demand.certain) :
      Twin p N (.fire p events) (.fire p events)
  | recheck {id : ObjectId} {epoch epoch' : Nat} {check : Recheck}
      (hepoch : N .epoch epoch epoch') (hcertain : check.demands ⊆ Demand.certain) :
      Twin p N (.recheck p id epoch check) (.recheck p id epoch' check)
  | remind (r : Reminder) : Twin p N (.remind r) (.remind r)

/-- Whether a task is not one of other players. -/
def Task.concerns (p : PlayerId) : Task → Bool
  | fire q _ => q = p
  | recheck q _ _ _ => q = p
  | remind _ => true

/-- Two worlds that are the same to a player, blocks aside. -/
structure World.Twin (p : PlayerId) (w w' : World) : Prop where
  avatar : w'.players.find? p = w.players.find? p
  frames : w'.frames.find? p = w.frames.find? p
  economyDown : w'.economyDown = w.economyDown
  projectile (handle : String) : w'.projectile? handle = w.projectile? handle

/-- A player's slots have the same objectives active in them. -/
def Slots.Twin (p : PlayerId) (N : Names) (s s' : Slots) : Prop :=
  Option.Rel (Slot.Twin N) (s.slots.find? p) (s'.slots.find? p)

/-- A player is at the same point of the same conversation. -/
def Sessions.Twin (p : PlayerId) (A : Set Demand) (N : Names) (s s' : Sessions) : Prop :=
  Option.Rel (Session.Twin A N) (s.find? p) (s'.find? p)

/-- The changes of a player's progress among those that wait for the archive. -/
def Engine.outboxOf (e : Engine) (p : PlayerId) : Option (List RecordChange) :=
  e.outbox.map (·.filter (·.key.1 = p))

/-- Two engines that are the same to a player under certain names.  In the second one no work waits
but his, and reminders. -/
structure Engine.Twin (p : PlayerId) (N : Names) (e e' : Engine) : Prop where
  registry : e'.registry = e.registry
  packages : e'.packages = e.packages
  integrations : e'.integrations = e.integrations
  defaultScreen : e'.defaultScreen = e.defaultScreen
  clock : e'.clock = e.clock
  certain : e.packages.Within Demand.certain true
  world : e.world.Twin p e'.world
  progress : e.progress.Twin p N e'.progress
  sessions : e.sessions.Twin p Demand.certain N e'.sessions
  agenda : e.agenda.Twin (Task.concerns p) (Task.Twin p N) e'.agenda
  outbox : e'.outboxOf p = e.outboxOf p
  dice : e.dice.InRange ∧ e'.dice.InRange
  names : N.Fit e e'

variable {N N' : Names} {p : PlayerId} {A : Set Demand}

/-! ### More names -/

theorem Active.Twin.mono {a a' : Active} (h : a.Twin N a') (hN : N ≤ N') : a.Twin N' a' :=
  { h with epoch := hN _ _ _ h.epoch }

theorem Active.Twin.record {a a' : Active} (h : a.Twin N a') (id : ObjectId) :
    a'.record p id = a.record p id := by
  rw [Active.record, Active.record, h.data, h.startedAt]

theorem Slot.Twin.mono {s s' : Slot} (h : s.Twin N s') (hN : N ≤ N') : s.Twin N' s' :=
  ⟨hN _ _ _ h.number, h.active.mono fun _ _ ha => ha.mono hN⟩

theorem Session.Twin.mono {s s' : Session} (h : s.Twin A N s') (hN : N ≤ N') : s.Twin A N' s' :=
  { h with number := hN _ _ _ h.number }

theorem Task.Twin.mono {t t' : Task} (h : t.Twin p N t') (hN : N ≤ N') : t.Twin p N' t' := by
  cases h with
  | fire hcertain => exact .fire hcertain
  | recheck hepoch hcertain => exact .recheck (hN _ _ _ hepoch) hcertain
  | remind r => exact .remind r

theorem Task.Twin.concerns {t t' : Task} (h : t.Twin p N t') : t.concerns p = true := by
  cases h <;> simp [Task.concerns]

theorem Slots.Twin.mono {s s' : Slots} (h : s.Twin p N s') (hN : N ≤ N') : s.Twin p N' s' := by
  unfold Slots.Twin at h ⊢
  generalize s.slots.find? p = slot at h ⊢
  generalize s'.slots.find? p = slot' at h ⊢
  cases h with
  | some h => exact .some (h.mono hN)
  | none => exact .none

theorem Sessions.Twin.mono {s s' : Sessions} (h : s.Twin p A N s') (hN : N ≤ N') :
    s.Twin p A N' s' := by
  unfold Sessions.Twin at h ⊢
  generalize s.find? p = session at h ⊢
  generalize s'.find? p = session' at h ⊢
  cases h with
  | some h => exact .some (h.mono hN)
  | none => exact .none

/-! ### Changes of worlds -/

namespace World

variable {w w' : World}

theorem twin_refl (w : World) : w.Twin p w := ⟨rfl, rfl, rfl, fun _ => rfl⟩

theorem Twin.symm (h : w.Twin p w') : w'.Twin p w :=
  ⟨h.avatar.symm, h.frames.symm, h.economyDown.symm, fun handle => (h.projectile handle).symm⟩

theorem Twin.trans {w'' : World} (h : w.Twin p w') (h' : w'.Twin p w'') : w.Twin p w'' :=
  ⟨h'.avatar.trans h.avatar, h'.frames.trans h.frames, h'.economyDown.trans h.economyDown,
    fun handle => (h'.projectile handle).trans (h.projectile handle)⟩

theorem Twin.avatar_eq (h : w.Twin p w') : w'.avatar p = w.avatar p := by
  rw [World.avatar, World.avatar, h.avatar]

theorem Twin.isOnline (h : w.Twin p w') : w'.isOnline p = w.isOnline p := by
  rw [World.isOnline, World.isOnline, Table.contains, Table.contains, h.avatar]

theorem Twin.balance (h : w.Twin p w') : w'.balance p = w.balance p := by
  rw [World.balance, World.balance, h.economyDown, h.avatar_eq]

theorem Twin.join (h : w.Twin p w') (a : Avatar) : (w.join p a).Twin p (w'.join p a) where
  avatar := by rw [World.join, World.join, Table.find?_insert_self, Table.find?_insert_self]
  frames := h.frames
  economyDown := h.economyDown
  projectile := h.projectile

theorem Twin.render (h : w.Twin p w') (fs : List Frame) :
    (w.render p fs).Twin p (w'.render p fs) := by
  unfold World.render
  split
  · exact h
  · exact { h with frames := by rw [Table.find?_insert_self, Table.find?_insert_self, h.frames] }

end World

/-! ### Views of slots -/

namespace Slots

variable {s s' : Slots} {held held' : Nat} {id : ObjectId}

theorem Twin.held? (h : s.Twin p N s') : Option.Rel (N .slot) (s.held? p) (s'.held? p) := by
  unfold Twin at h
  unfold Slots.held?
  generalize s.slots.find? p = slot at h ⊢
  generalize s'.slots.find? p = slot' at h ⊢
  cases h with
  | some h => exact .some h.number
  | none => exact .none

theorem Twin.activeOf (h : s.Twin p N s') :
    (s.activeOf p).Twin (Active.Twin N) (s'.activeOf p) := by
  unfold Twin at h
  unfold Slots.activeOf
  generalize s.slots.find? p = slot at h ⊢
  generalize s'.slots.find? p = slot' at h ⊢
  cases h with
  | some h => exact h.active
  | none => exact .nil

theorem Twin.ids (h : s.Twin p N s') : s'.ids p = s.ids p := by
  rw [Slots.ids, Slots.ids, h.activeOf.keys]

theorem Twin.find? (h : s.Twin p N s') (id : ObjectId) :
    Option.Rel (Active.Twin N) (s.find? p id) (s'.find? p id) :=
  h.activeOf.find? id

theorem Twin.isActive (h : s.Twin p N s') (id : ObjectId) : s'.isActive p id = s.isActive p id := by
  have hfind := h.find? id
  unfold Slots.isActive
  generalize s.find? p id = a at hfind ⊢
  generalize s'.find? p id = a' at hfind ⊢
  cases hfind <;> rfl

/-- Who holds a slot sees the same in it. -/
theorem Twin.activeIn (h : s.Twin p N s') {bound bound' : Nat}
    (hslots : OneToOne (N .slot) bound bound') (hheld : N .slot held held') :
    (s.activeIn p held).Twin (Active.Twin N) (s'.activeIn p held') := by
  unfold Twin at h
  unfold Slots.activeIn
  generalize s.slots.find? p = slot at h ⊢
  generalize s'.slots.find? p = slot' at h ⊢
  cases h with
  | @some slot slot' h =>
    dsimp only
    by_cases hnumber : slot.number = held
    · rw [if_pos hnumber, if_pos ((hslots.iff h.number hheld).1 hnumber)]
      exact h.active
    · rw [if_neg hnumber, if_neg fun hnumber' => hnumber ((hslots.iff h.number hheld).2 hnumber')]
      exact .nil
  | none => exact .nil

theorem Twin.findIn? (h : s.Twin p N s') {bound bound' : Nat}
    (hslots : OneToOne (N .slot) bound bound') (hheld : N .slot held held') (id : ObjectId) :
    Option.Rel (Active.Twin N) (s.findIn? p held id) (s'.findIn? p held' id) :=
  (h.activeIn hslots hheld).find? id

theorem Twin.isCurrent (h : s.Twin p N s') {bound bound' last last' : Nat}
    (hslots : OneToOne (N .slot) bound bound') (hepochs : OneToOne (N .epoch) last last')
    (hheld : N .slot held held') (id : ObjectId) {epoch epoch' : Nat}
    (hepoch : N .epoch epoch epoch') :
    s'.isCurrent p held' id epoch' = s.isCurrent p held id epoch := by
  have hfind := h.findIn? hslots hheld id
  unfold Slots.isCurrent
  generalize s.findIn? p held id = a at hfind ⊢
  generalize s'.findIn? p held' id = a' at hfind ⊢
  cases hfind with
  | some ha => exact decide_eq_decide.2 (hepochs.iff ha.epoch hepoch).symm
  | none => rfl

theorem Twin.changeIn (h : s.Twin p N s') {bound bound' : Nat}
    (hslots : OneToOne (N .slot) bound bound') (hheld : N .slot held held')
    {f f' : Table ObjectId Active → Table ObjectId Active}
    (hf : ∀ t t', t.Twin (Active.Twin N) t' → (f t).Twin (Active.Twin N) (f' t')) :
    (s.changeIn p held f).Twin p N (s'.changeIn p held' f') := by
  unfold Twin at h ⊢
  rw [slot_changeIn, slot_changeIn, if_pos rfl, if_pos rfl]
  generalize s.slots.find? p = slot at h ⊢
  generalize s'.slots.find? p = slot' at h ⊢
  cases h with
  | @some slot slot' h =>
    refine .some ?_
    dsimp only
    by_cases hnumber : slot.number = held
    · rw [if_pos hnumber, if_pos ((hslots.iff h.number hheld).1 hnumber)]
      exact ⟨h.number, hf _ _ h.active⟩
    · rw [if_neg hnumber, if_neg fun hnumber' => hnumber ((hslots.iff h.number hheld).2 hnumber')]
      exact h
  | none => exact .none

theorem Twin.prune (h : s.Twin p N s') {bound bound' : Nat}
    (hslots : OneToOne (N .slot) bound bound') (hheld : N .slot held held') :
    (s.prune p held).Twin p N (s'.prune p held') := by
  unfold Twin at h ⊢
  rw [slot_prune, slot_prune, if_pos rfl, if_pos rfl]
  generalize s.slots.find? p = slot at h ⊢
  generalize s'.slots.find? p = slot' at h ⊢
  cases h with
  | @some slot slot' h =>
    have hsame : (!(slot'.number = held' && slot'.active.isEmpty)) =
        !(slot.number = held && slot.active.isEmpty) := by
      rw [h.active.isEmpty, decide_eq_decide.2 (hslots.iff h.number hheld)]
    simp only [Option.filter_some, hsame]
    split
    · exact .some h
    · exact .none
  | none => exact .none

theorem Twin.put (h : s.Twin p N s') {a a' : Active} (ha : a.Twin N a')
    (hnew : s.held? p = none → N .slot s.nextNumber s'.nextNumber) :
    (s.put p id a).Twin p N (s'.put p id a') := by
  have hheld := h.held?
  unfold Twin
  rw [slot_put, slot_put, if_pos rfl, if_pos rfl]
  refine .some ⟨?_, h.activeOf.insert id ha⟩
  dsimp only
  generalize s.held? p = held at hheld hnew ⊢
  generalize s'.held? p = held' at hheld ⊢
  cases hheld with
  | some hheld => exact hheld
  | none => exact hnew rfl

end Slots

/-! ### Views of sessions -/

namespace Sessions

variable {s s' : Sessions} {number number' : Nat}

/-- Who holds a session sees the same in it. -/
theorem Twin.held? (h : s.Twin p A N s')
    (hsessions : ∀ {a b a' b' : Nat}, N .session a a' → N .session b b' → (a = b ↔ a' = b'))
    (hnumber : N .session number number') :
    Option.Rel (Session.Twin A N) (s.held? p number) (s'.held? p number') := by
  unfold Twin at h
  unfold Sessions.held?
  generalize s.find? p = session at h ⊢
  generalize s'.find? p = session' at h ⊢
  cases h with
  | @some session session' h =>
    have hsame : decide (session'.number = number') = decide (session.number = number) :=
      decide_eq_decide.2 (hsessions h.number hnumber).symm
    simp only [Option.filter_some, hsame]
    split
    · exact .some h
    · exact .none
  | none => exact .none

theorem Twin.isCurrent (h : s.Twin p A N s')
    (hsessions : ∀ {a b a' b' : Nat}, N .session a a' → N .session b b' → (a = b ↔ a' = b'))
    (hnumber : N .session number number') :
    s'.isCurrent p number' = s.isCurrent p number := by
  have hheld := h.held? hsessions hnumber
  unfold Sessions.isCurrent
  generalize s.held? p number = session at hheld ⊢
  generalize s'.held? p number' = session' at hheld ⊢
  cases hheld <;> rfl

theorem Twin.state? (h : s.Twin p A N s') : s'.state? p = s.state? p := by
  unfold Twin at h
  unfold Sessions.state?
  generalize s.find? p = session at h ⊢
  generalize s'.find? p = session' at h ⊢
  cases h with
  | some h =>
    rw [h.same]
    rfl
  | none => rfl

theorem Twin.history (h : s.Twin p A N s') : s'.history p = s.history p := by
  unfold Twin at h
  unfold Sessions.history
  generalize s.find? p = session at h ⊢
  generalize s'.find? p = session' at h ⊢
  cases h with
  | some h =>
    rw [h.same]
    rfl
  | none => rfl

theorem twin_put {session session' : Session} (h : session.Twin A N session') (m m' : Nat)
    (c c' : Chronicle) :
    Twin p A N ⟨s.current.insert p session, m, c⟩ ⟨s'.current.insert p session', m', c'⟩ := by
  unfold Twin
  rw [Sessions.find?, Sessions.find?, Table.find?_insert_self, Table.find?_insert_self]
  exact .some h

theorem twin_drop : (s.drop p).Twin p A N (s'.drop p) := by
  unfold Twin
  rw [Sessions.find?, Sessions.find?, Sessions.drop, Sessions.drop, Table.find?_erase_self,
    Table.find?_erase_self]
  exact .none

end Sessions

/-! ### Changes on both sides -/

namespace Engine

variable {e e' : Engine}

namespace Twin

/-- Progress changes on both sides, and the journal. -/
theorem change (h : Twin p N e e') {s s' : Slots} (hN : N ≤ N') (hs : s.Twin p N' s')
    (hnames : N'.Fit { e with progress := s } { e' with progress := s' }) (j j' : Journal) :
    Twin p N' { e with progress := s, journal := j } { e' with progress := s', journal := j' } :=
  { h with
    progress := hs
    sessions := h.sessions.mono hN
    agenda := h.agenda.mono fun _ _ ht => ht.mono hN
    names := hnames }

/-- Progress changes on both sides, and no number is handed out. -/
theorem change_same (h : Twin p N e e') {s s' : Slots} (hs : s.Twin p N s')
    (hepoch : s.nextEpoch = e.progress.nextEpoch) (hepoch' : s'.nextEpoch = e'.progress.nextEpoch)
    (hslot : s.nextNumber = e.progress.nextNumber)
    (hslot' : s'.nextNumber = e'.progress.nextNumber) (j j' : Journal) :
    Twin p N { e with progress := s, journal := j } { e' with progress := s', journal := j' } := by
  refine h.change le_rfl hs (fun c => ?_) j j'
  have hc := h.names c
  cases c with
  | epoch => simpa only [next, hepoch, hepoch'] using hc
  | slot => simpa only [next, hslot, hslot'] using hc
  | session => exact hc

/-- The journal makes no difference. -/
theorem noted (h : Twin p N e e') (j j' : Journal) :
    Twin p N { e with journal := j } { e' with journal := j' } :=
  { h with }

/-- The dice are rolled on both sides, and may come out differently. -/
theorem rolled (h : Twin p N e e') :
    Twin p N { e with dice := e.dice.rest } { e' with dice := e'.dice.rest } :=
  { h with dice := ⟨h.dice.1.rest, h.dice.2.rest⟩ }

/-- The archive is told the same. -/
theorem persist (h : Twin p N e e') {op op' : RecordChange} (hop : op' = op) :
    Twin p N (e.persist op) (e'.persist op') := by
  subst hop
  refine { h with outbox := ?_ }
  have hsame : ∀ e : Engine, (e.persist op').outboxOf p =
      (e.outboxOf p).map ([op'].filter (·.key.1 = p) ++ ·) := by
    intro e
    simp only [outboxOf, Engine.persist, Option.map_map]
    refine congrArg (fun f => e.outbox.map f) (funext fun ops => ?_)
    simp only [Function.comp_apply]
    rw [← List.singleton_append, List.filter_append]
  rw [hsame, hsame, h.outbox]

/-- An epoch is handed out on both sides. -/
theorem issueEpoch (h : Twin p N e e') : Twin p
    (N.add .epoch e.progress.nextEpoch e'.progress.nextEpoch)
    { e with progress := e.progress.issueEpoch.2 }
    { e' with progress := e'.progress.issueEpoch.2 } := by
  have hslots : Slots.Twin p N e.progress.issueEpoch.2 e'.progress.issueEpoch.2 := h.progress
  refine h.change (N.le_add _ _ _) (hslots.mono (N.le_add _ _ _))
    (h.names.add .epoch ?_ ?_) e.journal e'.journal <;>
  · intro d
    cases d <;> rfl

/-- An objective becomes active on both sides. -/
theorem put (h : Twin p N e e') (id : ObjectId) {a a' : Active} (ha : a.Twin N a') :
    ∃ N', N ≤ N' ∧ Twin p N' { e with progress := e.progress.put p id a }
      { e' with progress := e'.progress.put p id a' } := by
  have hheld := h.progress.held?
  by_cases hnone : e.progress.held? p = none
  · have hnone' : e'.progress.held? p = none := by
      rw [hnone] at hheld
      generalize e'.progress.held? p = held' at hheld ⊢
      cases hheld
      rfl
    have hN := N.le_add .slot e.progress.nextNumber e'.progress.nextNumber
    refine ⟨_, hN, h.change hN ((h.progress.mono hN).put (ha.mono hN) fun _ => N.add_self _ _ _)
      (h.names.add .slot ?_ ?_) e.journal e'.journal⟩ <;>
    · intro d
      cases d with
      | epoch => exact Slots.nextEpoch_put _ _ _ _
      | slot => simp [next, Slots.nextNumber_put, hnone, hnone']
      | session => rfl
  · have hsome' : ¬ e'.progress.held? p = none := by
      generalize e.progress.held? p = held at hheld hnone
      generalize e'.progress.held? p = held' at hheld ⊢
      cases hheld with
      | some _ => exact Option.some_ne_none _
      | none => exact absurd rfl hnone
    exact ⟨N, le_rfl, h.change_same (h.progress.put ha fun hnone' => absurd hnone' hnone)
      (Slots.nextEpoch_put _ _ _ _) (Slots.nextEpoch_put _ _ _ _)
      (by simp [Slots.nextNumber_put, hnone]) (by simp [Slots.nextNumber_put, hsome'])
      e.journal e'.journal⟩

theorem enter (h : Twin p N e e') (id : ObjectId) (data : Json)
    (startedAt : Calendar.Timestamp) :
    ∃ N', N ≤ N' ∧ Twin p N' (e.enter p id data startedAt).2 (e'.enter p id data startedAt).2 := by
  have hactive : Active.Twin (N.add .epoch e.progress.nextEpoch e'.progress.nextEpoch)
      ⟨data, e.progress.nextEpoch, startedAt⟩ ⟨data, e'.progress.nextEpoch, startedAt⟩ :=
    ⟨rfl, rfl, N.add_self _ _ _⟩
  obtain ⟨N', hN', htwin⟩ := h.issueEpoch.put id hactive
  rw [e.enter_eq, e'.enter_eq]
  exact ⟨N', (N.le_add _ _ _).trans hN', htwin.noted _ _⟩

theorem begun (h : Twin p N e e') (id : ObjectId) (data : Json) :
    ∃ N', N ≤ N' ∧ Twin p N' (e.begun p id data) (e'.begun p id data) := by
  obtain ⟨N', hN', htwin⟩ := h.enter id data e.clock
  have hclock := h.clock
  refine ⟨N', hN', ?_⟩
  unfold Engine.begun
  rw [hclock]
  exact htwin.persist rfl

variable {held held' : Nat} {id : ObjectId} {active active' : Active}

/-- The active objectives in a slot that is held change on both sides. -/
theorem changeIn (h : Twin p N e e') (hheld : N .slot held held')
    {f f' : Table ObjectId Active → Table ObjectId Active}
    (hf : ∀ t t', t.Twin (Active.Twin N) t' → (f t).Twin (Active.Twin N) (f' t'))
    (j j' : Journal) :
    Twin p N { e with progress := e.progress.changeIn p held f, journal := j }
      { e' with progress := e'.progress.changeIn p held' f', journal := j' } :=
  h.change_same (h.progress.changeIn (h.names .slot) hheld hf)
    (Slots.nextEpoch_changeIn _ _ _ _) (Slots.nextEpoch_changeIn _ _ _ _)
    (Slots.nextNumber_changeIn _ _ _ _) (Slots.nextNumber_changeIn _ _ _ _) j j'

theorem ended (h : Twin p N e e') (hheld : N .slot held held') (how : Ending) :
    Twin p N (e.ended p held id active how) (e'.ended p held' id active' how) :=
  h.changeIn hheld (fun _ _ ht => ht.erase id) _ _

theorem removed (h : Twin p N e e') (hheld : N .slot held held') (how : Ending) :
    Twin p N (e.removed p held id active how) (e'.removed p held' id active' how) :=
  (h.ended hheld how).persist rfl

theorem stored (h : Twin p N e e') (hheld : N .slot held held') (ha : active.Twin N active')
    (epoch epoch' : Nat) (data : Json) :
    Twin p N (e.stored p held id active epoch data) (e'.stored p held' id active' epoch' data) :=
  have hdata : Active.Twin N { active with data } { active' with data } := { ha with data := rfl }
  (h.changeIn hheld (fun _ _ ht => ht.insert id hdata) _ _).persist
    (congrArg RecordChange.upsert (hdata.record id))

theorem pruned (h : Twin p N e e') (hheld : N .slot held held') :
    Twin p N (e.pruned p held) (e'.pruned p held') :=
  h.change_same (h.progress.prune (h.names .slot) hheld)
    (Slots.nextEpoch_prune _ _ _) (Slots.nextEpoch_prune _ _ _)
    (Slots.nextNumber_prune _ _ _) (Slots.nextNumber_prune _ _ _) _ _

theorem renewed (h : Twin p N e e') (hheld : N .slot held held') (ha : active.Twin N active')
    (data : Json) : ∃ N', N ≤ N' ∧
      Twin p N' (e.renewed p held id active data) (e'.renewed p held' id active' data) := by
  have hN := N.le_add .epoch e.progress.nextEpoch e'.progress.nextEpoch
  have hactive : Active.Twin (N.add .epoch e.progress.nextEpoch e'.progress.nextEpoch)
      { active with data, epoch := e.progress.nextEpoch }
      { active' with data, epoch := e'.progress.nextEpoch } :=
    ⟨rfl, ha.startedAt, N.add_self _ _ _⟩
  exact ⟨_, hN, (h.issueEpoch.changeIn (hN _ _ _ hheld) (fun _ _ ht => ht.insert id hactive)
    _ _).persist (congrArg RecordChange.upsert (hactive.record id))⟩

theorem property? (h : Twin p N e e') (id : ObjectId) (name : String) :
    e'.property? p id name = e.property? p id name := by
  have hfind := h.progress.find? id
  unfold Engine.property?
  rw [h.packages]
  generalize e.progress.find? p id = a at hfind ⊢
  generalize e'.progress.find? p id = a' at hfind ⊢
  cases hfind with
  | some ha => simp only [Option.bind_eq_bind, Option.bind_some, ha.data]
  | none => rfl

theorem record? (h : Twin p N e e') (id : ObjectId) : e'.record? p id = e.record? p id := by
  have hfind := h.progress.find? id
  unfold Engine.record?
  generalize e.progress.find? p id = a at hfind ⊢
  generalize e'.progress.find? p id = a' at hfind ⊢
  cases hfind with
  | some ha => exact congrArg some (ha.record id)
  | none => rfl

/-- The sessions change on both sides, and no number is handed out. -/
theorem changeSessions (h : Twin p N e e') {s s' : Sessions} (hs : s.Twin p Demand.certain N s')
    (hnumber : s.nextNumber = e.sessions.nextNumber)
    (hnumber' : s'.nextNumber = e'.sessions.nextNumber) :
    Twin p N { e with sessions := s } { e' with sessions := s' } :=
  { h with
    sessions := hs
    names := fun c => by
      have hc := h.names c
      cases c with
      | epoch | slot => exact hc
      | session => simpa only [next, hnumber, hnumber'] using hc }

/-- Something happens to a session on both sides: its player sees the same of it. -/
theorem told (h : Twin p N e e') (number number' : Nat) (what : Moment) :
    Twin p N (e.told p number what) (e'.told p number' what) :=
  have hrendered : Twin p N { e with world := e.world.render p what.frames }
      { e' with world := e'.world.render p what.frames } :=
    { h with world := h.world.render what.frames }
  hrendered.changeSessions hrendered.sessions rfl rfl

/-- A conversation is begun on both sides. -/
theorem seat (h : Twin p N e e') {talk : Conversation} (screen : Screen)
    (hcertain : talk.demands true ⊆ Demand.certain) : Twin p
    (N.add .session e.sessions.nextNumber e'.sessions.nextNumber)
    { e with sessions := (e.sessions.start p talk screen).2 }
    { e' with sessions := (e'.sessions.start p talk screen).2 } := by
  have hN := N.le_add .session e.sessions.nextNumber e'.sessions.nextNumber
  have hsession : Session.Twin Demand.certain
      (N.add .session e.sessions.nextNumber e'.sessions.nextNumber)
      ⟨e.sessions.nextNumber, talk, .resolving, [], screen⟩
      ⟨e'.sessions.nextNumber, talk, .resolving, [], screen⟩ :=
    ⟨N.add_self _ _ _, rfl, hcertain⟩
  refine
    { h with
      progress := h.progress.mono hN
      sessions := Sessions.twin_put hsession _ _ _ _
      agenda := h.agenda.mono fun _ _ ht => ht.mono hN
      names := h.names.add .session ?_ ?_ } <;>
  · intro d
    cases d <;> rfl

end Twin

end Engine

end Questbook
