/-
Questbook/Proofs/Engine/Others.lean

What is done for other players.

Whatever the engine does for one player, on any level and with all the content there is, it spares
what the others have: their slots, their sessions, their share of the world and the work that waits
for them.  So an engine that has done something for others is still a twin of one that has not.

Main results: `Engine.spares_play` and `Command.perform_spares`.
-/
import Questbook.Proofs.Engine.Levels
import Questbook.Proofs.Engine.Twin

namespace Questbook

variable {p q : PlayerId} {N : Names}

/-! ### Progress -/

/-- A change of progress leaves a player's slot, and takes back no number. -/
structure Slots.Spares (p : PlayerId) (s s₁ : Slots) : Prop where
  slot : s₁.slots.find? p = s.slots.find? p
  epoch : s.nextEpoch ≤ s₁.nextEpoch
  number : s.nextNumber ≤ s₁.nextNumber

namespace Slots

variable {s s₁ : Slots}

theorem spares_refl (s : Slots) : s.Spares p s := ⟨rfl, le_rfl, le_rfl⟩

theorem Spares.issueEpoch (h : s.Spares p s₁) : s.Spares p s₁.issueEpoch.2 :=
  ⟨h.slot, Nat.le_succ_of_le h.epoch, h.number⟩

theorem Spares.put (h : s.Spares p s₁) (hq : q ≠ p) (id : ObjectId) (a : Active) :
    s.Spares p (s₁.put q id a) where
  slot := by rw [slot_put, if_neg hq, h.slot]
  epoch := by rw [nextEpoch_put]; exact h.epoch
  number := by
    rw [nextNumber_put]
    split
    · exact Nat.le_succ_of_le h.number
    · exact h.number

theorem Spares.changeIn (h : s.Spares p s₁) (hq : q ≠ p) (held : Nat)
    (f : Table ObjectId Active → Table ObjectId Active) : s.Spares p (s₁.changeIn q held f) where
  slot := by rw [slot_changeIn, if_neg hq, h.slot]
  epoch := by rw [nextEpoch_changeIn]; exact h.epoch
  number := by rw [nextNumber_changeIn]; exact h.number

theorem Spares.prune (h : s.Spares p s₁) (hq : q ≠ p) (held : Nat) :
    s.Spares p (s₁.prune q held) where
  slot := by rw [slot_prune, if_neg hq, h.slot]
  epoch := by rw [nextEpoch_prune]; exact h.epoch
  number := by rw [nextNumber_prune]; exact h.number

end Slots

/-! ### The engine -/

namespace Engine

/-- A change of the engine leaves everything that a player has, and takes back no number. -/
structure Spares (p : PlayerId) (e e₁ : Engine) : Prop where
  registry : e₁.registry = e.registry
  packages : e₁.packages = e.packages
  integrations : e₁.integrations = e.integrations
  defaultScreen : e₁.defaultScreen = e.defaultScreen
  clock : e₁.clock = e.clock
  world : e.world.Twin p e₁.world
  progress : e.progress.Spares p e₁.progress
  session : e₁.sessions.find? p = e.sessions.find? p
  number : e.sessions.nextNumber ≤ e₁.sessions.nextNumber
  tick : e₁.agenda.tick = e.agenda.tick
  waiting : (e₁.agenda.waiting.filter fun a => a.task.concerns p) =
    e.agenda.waiting.filter fun a => a.task.concerns p
  numbered : e.agenda.Numbered → e₁.agenda.Numbered
  outbox : e₁.outboxOf p = e.outboxOf p
  dice : e.dice.InRange → e₁.dice.InRange

variable {e e' e₀ e₁ e₁' : Engine} {held : Nat} {id : ObjectId} {active : Active}

theorem spares_refl (e : Engine) : e.Spares p e :=
  ⟨rfl, rfl, rfl, rfl, rfl, e.world.twin_refl, e.progress.spares_refl, rfl, le_rfl, rfl, rfl, id,
    rfl, id⟩

/-- What is done for others makes no difference, as long as it puts off no work on the second
side. -/
theorem Twin.spared (h : e.Twin p N e') (hs : e.Spares p e₁) (hs' : e'.Spares p e₁')
    (hagenda : e₁'.agenda = e'.agenda) : e₁.Twin p N e₁' where
  registry := (hs'.registry.trans h.registry).trans hs.registry.symm
  packages := (hs'.packages.trans h.packages).trans hs.packages.symm
  integrations := (hs'.integrations.trans h.integrations).trans hs.integrations.symm
  defaultScreen := (hs'.defaultScreen.trans h.defaultScreen).trans hs.defaultScreen.symm
  clock := (hs'.clock.trans h.clock).trans hs.clock.symm
  certain := hs.packages ▸ h.certain
  world := (hs.world.symm.trans h.world).trans hs'.world
  progress := by
    have hprogress := h.progress
    unfold Slots.Twin at hprogress ⊢
    rw [hs.progress.slot, hs'.progress.slot]
    exact hprogress
  sessions := by
    have hsessions := h.sessions
    unfold Sessions.Twin at hsessions ⊢
    rw [hs.session, hs'.session]
    exact hsessions
  agenda := by
    rw [hagenda]
    exact
      { tick := h.agenda.tick.trans hs.tick.symm
        left := hs.numbered h.agenda.left
        right := h.agenda.right
        waiting := hs.waiting ▸ h.agenda.waiting }
  outbox := (hs'.outbox.trans h.outbox).trans hs.outbox.symm
  dice := ⟨hs.dice h.dice.1, hs'.dice h.dice.2⟩
  names := fun c => by
    have hc := h.names c
    cases c with
    | epoch => exact hc.mono hs.progress.epoch hs'.progress.epoch
    | slot => exact hc.mono hs.progress.number hs'.progress.number
    | session => exact hc.mono hs.number hs'.number

/-! ### Changes for another player -/

/-- Progress changes, and the journal. -/
theorem Spares.change (h : e₀.Spares p e) {s : Slots} (hs : e₀.progress.Spares p s)
    (j : Journal) : e₀.Spares p { e with progress := s, journal := j } :=
  { h with progress := hs }

/-- The archive is told of another player. -/
theorem Spares.persist (h : e₀.Spares p e) {op : RecordChange} (hop : op.key.1 ≠ p) :
    e₀.Spares p (e.persist op) := by
  refine { h with outbox := Eq.trans ?_ h.outbox }
  simp only [outboxOf, Engine.persist, Option.map_map]
  refine congrArg (fun f => e.outbox.map f) (funext fun ops => ?_)
  simp only [Function.comp_apply]
  rw [List.filter_cons_of_neg (by simpa using hop)]

theorem Spares.enter (h : e₀.Spares p e) (hq : q ≠ p) (id : ObjectId) (data : Json)
    (startedAt : Calendar.Timestamp) : e₀.Spares p (e.enter q id data startedAt).2 := by
  rw [enter_eq]
  exact h.change (h.progress.issueEpoch.put hq id _) _

theorem Spares.begun (h : e₀.Spares p e) (hq : q ≠ p) (id : ObjectId) (data : Json) :
    e₀.Spares p (e.begun q id data) :=
  (h.enter hq id data e.clock).persist hq

theorem Spares.stored (h : e₀.Spares p e) (hq : q ≠ p) (epoch : Nat) (data : Json) :
    e₀.Spares p (e.stored q held id active epoch data) :=
  (h.change (h.progress.changeIn hq held (·.insert id { active with data })) _).persist hq

theorem Spares.ended (h : e₀.Spares p e) (hq : q ≠ p) (how : Ending) :
    e₀.Spares p (e.ended q held id active how) :=
  h.change (h.progress.changeIn hq held (·.erase id)) _

theorem Spares.removed (h : e₀.Spares p e) (hq : q ≠ p) (how : Ending) :
    e₀.Spares p (e.removed q held id active how) :=
  (h.ended hq how).persist hq

theorem Spares.renewed (h : e₀.Spares p e) (hq : q ≠ p) (data : Json) :
    e₀.Spares p (e.renewed q held id active data) :=
  (h.change (h.progress.issueEpoch.changeIn hq held
    (·.insert id { active with data, epoch := e.progress.nextEpoch })) _).persist hq

theorem Spares.pruned (h : e₀.Spares p e) (hq : q ≠ p) (held : Nat) :
    e₀.Spares p (e.pruned q held) :=
  h.change (h.progress.prune hq held) _

/-- The session of another player changes. -/
theorem Spares.changeSessions (h : e₀.Spares p e) {s : Sessions}
    (hsession : s.find? p = e.sessions.find? p) (hnumber : e.sessions.nextNumber ≤ s.nextNumber) :
    e₀.Spares p { e with sessions := s } :=
  { h with
    session := hsession.trans h.session
    number := h.number.trans hnumber }

/-- Another player sees something. -/
theorem Spares.render (h : e₀.Spares p e) (hq : q ≠ p) (frames : List Frame) :
    e₀.Spares p { e with world := e.world.render q frames } := by
  refine { h with world := ?_ }
  dsimp only
  unfold World.render
  split
  · exact h.world
  · exact
      { h.world with frames := (e.world.frames.find?_insert_of_ne _ hq).trans h.world.frames }

/-- Work is put off for others. -/
theorem Spares.later (h : e₀.Spares p e) {tasks : List (Nat × Task)} {agenda : Agenda Task}
    (htasks : ∀ t ∈ tasks, t.2.concerns p = false)
    (hagenda : e.agenda.afterAll? tasks = some agenda) : e₀.Spares p { e with agenda } :=
  { h with
    tick := (Agenda.tick_afterAll? hagenda).trans h.tick
    waiting := (Agenda.filter_afterAll? htasks hagenda).trans h.waiting
    numbered := fun hnumbered => (h.numbered hnumbered).afterAll? hagenda }

/-- What is done for a player spares the others. -/
theorem spares_keptByAll (hq : q ≠ p) (e₀ : Engine) :
    KeptByAll q Set.univ true e₀.packages fun _ : Unit => e₀.Spares p where
  within _ _ _ _ := Set.subset_univ _
  changes _ :=
    { dice := fun he => { he with dice := fun hdice => (he.dice hdice).rest }
      place := fun _ _ he => { he with world := { he.world with } }
      join := fun {e} avatar he =>
        { he with
          world :=
            { he.world with
              avatar := (e.world.players.find?_insert_of_ne avatar hq).trans he.world.avatar } }
      render := fun frames he => he.render hq frames
      note := fun _ he => { he with }
      later := fun {e tasks agenda} he hown hagenda => by
        refine he.later (fun t ht => ?_) hagenda
        have hof := hown t ht
        cases htask : t.2 with
        | fire r events =>
          rw [htask] at hof
          obtain ⟨rfl, -⟩ := hof
          exact decide_eq_false hq
        | recheck | remind =>
          rw [htask] at hof
          exact hof.elim
      packages := fun he => he.packages
      start := fun he _ _ => he.begun hq _ _
      store := fun he _ _ _ => he.stored hq _ _
      cancel := fun he _ => (he.removed hq _).pruned hq _
      prune := fun held he => he.pruned hq held }
  complete he _ := ⟨(), (he.removed hq _).change (he.removed hq _).progress _,
    fun _ he => he.pruned hq _⟩

theorem spares_keptByDeferral {A : Set Demand} (hq : q ≠ p) (e₀ : Engine) :
    KeptByDeferral q A (e₀.Spares p) where
  defer {e id epoch check agenda} he _ hagenda := by
    have hother : ∀ t ∈ [(1, Task.recheck q id epoch check)], t.2.concerns p = false := by
      intro t ht
      obtain rfl := List.mem_singleton.1 ht
      exact decide_eq_false hq
    exact he.later hother hagenda

theorem spares_keptByTalk (hq : q ≠ p) (e₀ : Engine) :
    KeptByTalk q Set.univ true e₀.packages (e₀.Spares p) where
  talk _ _ := Set.subset_univ _
  seat {e _ _} _ he _ _ :=
    he.changeSessions (e.sessions.current.find?_insert_of_ne _ hq) (Nat.le_succ _)
  put {e _} _ he _ _ _ _ :=
    he.changeSessions (e.sessions.current.find?_insert_of_ne _ hq) le_rfl
  drop {e _} he _ := he.changeSessions (e.sessions.current.find?_erase_of_ne hq) le_rfl
  tell _ what he := (he.render hq what.frames).changeSessions rfl le_rfl

/-- All that is done on behalf of a player spares the others, on every level of the engine. -/
theorem spares_play (hq : q ≠ p) (levels : Nat) (e₀ : Engine) :
    KeptByPlay (nested levels) q Set.univ true e₀.packages (e₀.Spares p) fun _ => True :=
  (spares_keptByAll hq e₀).keptByPlay (fun _ => spares_keptByTalk hq e₀) trivial trivial levels ()

end Engine

/-! ### Commands and tasks -/

/-- A command for a player spares the others. -/
theorem Command.perform_spares {c : Command} (hc : c.player? = some q) (hq : q ≠ p) (levels : Nat)
    (e₀ : Engine) : (c.perform (nested levels)).Keeps (e₀.Spares p) fun _ => True :=
  Command.perform_keeps_of_player (Engine.spares_play hq levels e₀).toKeptByGoals hc
    (fun event hevent => Engine.spares_keptByDeferral (by
      subst hevent
      cases hc
      exact hq) e₀)
    fun r _ => r.answer_keeps (Engine.spares_play hq levels e₀)

/-- Work that waits for another player spares a player. -/
theorem Task.run_spares {t : Task} (ht : t.concerns p = false) (levels : Nat) (e₀ : Engine) :
    (t.run (nested levels)).Keeps (e₀.Spares p) fun _ => True := by
  cases t with
  | fire q events =>
    exact Action.fireEach_keeps (Engine.spares_play (of_decide_eq_false ht) levels e₀).content
      (Set.subset_univ _)
  | recheck q id epoch check =>
    exact Objectives.resume_keeps
      (Engine.spares_play (of_decide_eq_false ht) levels e₀).toKeptByGoals epoch
      (Set.subset_univ _)
  | remind r => cases ht

end Questbook
