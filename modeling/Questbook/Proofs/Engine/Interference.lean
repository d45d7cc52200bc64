/-
Questbook/Proofs/Engine/Interference.lean

Players do not interfere.

Two runs are compared: one in which commands for several players mix, and one from which those for
all players but one are left out.  After each command the two engines are twins to that player.
What is done for others spares him, so that the second engine need not do it.  What is done for him
is done in both.  What is done for nobody in particular, a tick above all, is done in both as well:
there the work of others is passed over, and his own work comes out in the same order.

Main result: `players_apart`.
-/
import Questbook.Proofs.Engine.Authored
import Questbook.Proofs.Engine.Others
import Questbook.Proofs.Engine.Private

namespace Questbook

variable {α β γ : Type} {p q : PlayerId} {N : Names} {e e' : Engine} {levels : Nat}

/-! ### Time -/

/-- What spares a player is passed over on the other side. -/
theorem Act.mirrors_skip {V : Names → α → β → Prop} {a : Act γ} {f : γ → Act α} {b : Act β}
    {H : Halt → Prop} (h : e.Twin p N e') (ha : a.Keeps (e.Spares p) H)
    (hf : ∀ x e₁, e₁.Twin p N e' → Mirrors (Engine.Twin p) N e₁ e' V (f x) b) :
    Mirrors (Engine.Twin p) N e e' V (a >>= f) b := by
  intro y e₂ hrun
  obtain ⟨x, e₁, hrun₁, hrun₂⟩ := exists_of_run_bind hrun
  exact hf x e₁ (h.spared (ha.of_run e.spares_refl hrun₁) e'.spares_refl rfl) y e₂ hrun₂

/-- Reminders are put off on both sides. -/
theorem Act.mirrors_remind (h : e.Twin p N e') {tasks : List (Nat × Task)}
    (htasks : ∀ t ∈ tasks, ∃ r, t.2 = .remind r) :
    Mirrors (Engine.Twin p) N e e' Same (later tasks) (later tasks) := by
  refine mirrors_later h (List.forall₂_same.2 fun t ht => ?_)
  obtain ⟨r, hr⟩ := htasks t ht
  rw [hr]
  exact ⟨rfl, .remind r⟩

theorem Task.mirrors_run {t t' : Task} (h : e.Twin p N e') (ht : t.Twin p N t') :
    Act.Mirrors (Engine.Twin p) N e e' Same (t.run (nested levels)) (t'.run (nested levels)) := by
  have hcontent := (Engine.twin_mirroredByPlay p).content levels
  cases ht with
  | fire hcertain => exact Action.fireEach_mirrored hcontent hcertain N e e' h
  | recheck hepoch _ => exact Objectives.mirrors_resume hcontent h _ hepoch _
  | remind r =>
    exact r.ring_mirrored hcontent.toMirroredAside (fun h ht => Act.mirrors_remind h ht) N e e' h

/-- The work that concerns a player is done in the same order on both sides. -/
theorem Task.mirrors_runEach {due due' : List (Appointment Task)} (h : e.Twin p N e')
    (hdue : List.Forall₂ (Appointment.Twin (Task.Twin p N))
      (due.filter fun a => a.task.concerns p) due') :
    Act.Mirrors (Engine.Twin p) N e e' Same (runEach (nested levels) due)
      (runEach (nested levels) due') := by
  induction due generalizing N e e' due' with
  | nil =>
    cases hdue
    exact Act.mirrors_pure h rfl
  | cons s rest ih =>
    by_cases hs : s.task.concerns p = true
    · rw [List.filter_cons_of_pos (by simpa using hs)] at hdue
      obtain ⟨s', rest', hs', hrest, rfl⟩ := List.forall₂_cons_left_iff.1 hdue
      refine Act.mirrors_bind (Task.mirrors_run h hs'.2) ?_
      intro N₁ _ _ e₁ e₁' hN₁ _ htwin _
      exact ih htwin (hrest.imp fun _ _ ha => ⟨ha.1, ha.2.mono hN₁⟩)
    · rw [List.filter_cons_of_neg (by simpa using hs)] at hdue
      exact Act.mirrors_skip h (Task.run_spares (Bool.eq_false_iff.2 hs) levels e)
        fun _ e₁ htwin => ih htwin hdue

theorem Act.mirrors_tick (h : e.Twin p N e') :
    Act.Mirrors (Engine.Twin p) N e e' (fun _ _ _ => True) (Act.tick (nested levels))
      (Act.tick (nested levels)) := by
  obtain ⟨hagenda, hdue⟩ := h.agenda.advance
  refine Act.mirrors_get_bind (Act.mirrors_bind (V := fun M _ _ => N ≤ M)
    (Act.mirrors_change le_rfl { h with agenda := hagenda } le_rfl) ?_)
  intro N₁ _ _ e₁ e₁' _ _ htwin hN₁
  refine Act.mirrors_bind (Task.mirrors_runEach htwin
    (hdue.imp fun _ _ ha => ⟨ha.1, ha.2.mono hN₁⟩)) ?_
  intro N₂ _ _ e₂ e₂' _ _ htwin₂ _
  exact Act.mirrors_pure htwin₂ trivial

/-! ### Storage -/

namespace Objectives

theorem restore_private (records : List ProgressRecord) : Act.Private p (restore records) := by
  induction records with
  | nil => exact Act.mirrored_pure _
  | cons r rest ih =>
    refine Act.mirrored_bind (Act.mirrored_objective (Engine.twin_mirroredAside p) _) fun d => ?_
    split
    · exact ih
    · refine Act.mirrored_bind (Act.mirrored_modify fun N e e' h => ?_) fun _ =>
        Act.mirrored_bind ih fun _ => Act.mirrored_pure _
      by_cases hp : r.player = p
      · rw [hp]
        exact h.enter _ _ _
      · exact ⟨N, le_rfl, h.spared (e.spares_refl.enter hp _ _ _) (e'.spares_refl.enter hp _ _ _)
          (by rw [Engine.enter_eq])⟩

end Objectives

/-! ### Reload -/

variable {K : Packages}

/-- Fitting the progress of others to new packages spares a player, and puts off no work. -/
theorem Engine.spares_keptByReload (hq : q ≠ p) (e₀ : Engine) :
    KeptByReload q K fun e => e₀.Spares p e ∧ e.agenda = e₀.agenda where
  drop he _ _ := ⟨he.1.ended hq _, he.2⟩
  renew he _ _ _ := ⟨he.1.renewed hq _, he.2⟩
  prune held he := ⟨he.1.pruned hq held, he.2⟩

namespace Objectives

variable {held held' : Nat}

theorem mirrors_refit (h : e.Twin p N e') (hheld : N .slot held held') (id : ObjectId) :
    Act.Mirrors (Engine.Twin p) N e e' Same (refit K p held id) (refit K p held' id) := by
  have hfind := h.progress.findIn? (h.names .slot) hheld id
  refine Act.mirrors_get_bind ?_
  generalize e.progress.findIn? p held id = active at hfind ⊢
  generalize e'.progress.findIn? p held' id = active' at hfind ⊢
  cases hfind with
  | none => exact Act.mirrors_pure h rfl
  | @some active active' ha =>
    cases hdefined : K.get .objective id with
    | error err => exact Act.mirrors_modify (h.ended hheld .dropped)
    | ok definition =>
      dsimp only
      rw [ha.data]
      split
      · exact Act.mirrors_pure h rfl
      · have hrenewed : ∃ N', N ≤ N' ∧ Engine.Twin p N'
            (e.renewed p held id active definition.goal.initial)
            (e'.renewed p held' id active' definition.goal.initial) := h.renewed hheld ha _
        obtain ⟨N', hN', htwin⟩ := hrenewed
        exact Act.mirrors_change hN' htwin rfl

theorem mirrors_refitEach (h : e.Twin p N e') (hheld : N .slot held held') (ids : List ObjectId) :
    Act.Mirrors (Engine.Twin p) N e e' Same (refitEach K p held ids) (refitEach K p held' ids) := by
  induction ids generalizing N e e' with
  | nil => exact Act.mirrors_pure h rfl
  | cons id rest ih =>
    refine Act.mirrors_bind (mirrors_refit h hheld id) ?_
    intro N' _ _ e₁ e₁' hN' _ htwin _
    exact ih htwin (hN' _ _ _ hheld)

theorem refitSlots_append (slots rest : List (PlayerId × Nat)) :
    refitSlots K (slots ++ rest) = refitSlots K slots >>= fun _ => refitSlots K rest := by
  induction slots with
  | nil => simp [refitSlots]
  | cons s slots ih => simp [refitSlots, ih]

/-- The slots of others are gone through on each side for itself. -/
theorem mirrors_refitSlots {slots slots' : List (PlayerId × Nat)} (h : e.Twin p N e')
    (hslots : ∀ s ∈ slots, s.1 ≠ p) (hslots' : ∀ s ∈ slots', s.1 ≠ p) :
    Act.Mirrors (Engine.Twin p) N e e' Same (refitSlots K slots) (refitSlots K slots') := by
  have hkeeps : ∀ {slots} (e₀ : Engine), (∀ s ∈ slots, s.1 ≠ p) → (refitSlots K slots).Keeps
      (fun e => e₀.Spares p e ∧ e.agenda = e₀.agenda) fun _ => False := fun e₀ hslots =>
    refitSlots_keeps fun s hs => Engine.spares_keptByReload (hslots s hs) e₀
  intro x e₁ hrun
  have hspares := ((hkeeps e hslots).of_run ⟨e.spares_refl, rfl⟩ hrun).1
  have hensures := hkeeps e' hslots' e' ⟨e'.spares_refl, rfl⟩
  cases hrun' : (refitSlots K slots').run e' with
  | error err => exact (hensures.of_halt hrun').elim
  | ok r =>
    obtain ⟨hspares', hagenda'⟩ := hensures.of_run hrun'
    exact ⟨N, (), r.2, le_rfl, rfl, h.spared hspares hspares' hagenda', rfl⟩

/-- Who has no slot is not on the list of those who have one. -/
theorem others_of_find? {t : Table PlayerId Slot} (h : t.find? p = none) :
    ∀ s ∈ t.entries.map fun s => (s.1, s.2.number), s.1 ≠ p := by
  refine List.forall_mem_map.2 ?_
  rintro entry hentry rfl
  cases h.symm.trans (Table.find?_of_mem_entries hentry)

theorem reconcile_private : Act.Private p (reconcile K) := by
  refine Act.mirrored_get_bind fun N e e' h => ?_
  have hslot : Option.Rel (Slot.Twin N) (e.progress.slots.find? p) (e'.progress.slots.find? p) :=
    h.progress
  -- His slot is on both lists or on none, and what stands around it is of others.
  cases hfind : e.progress.slots.find? p with
  | none =>
    rw [hfind] at hslot
    cases hfind' : e'.progress.slots.find? p with
    | none => exact mirrors_refitSlots h (others_of_find? hfind) (others_of_find? hfind')
    | some slot' =>
      rw [hfind'] at hslot
      cases hslot
  | some slot =>
    rw [hfind] at hslot
    cases hfind' : e'.progress.slots.find? p with
    | none =>
      rw [hfind'] at hslot
      cases hslot
    | some slot' =>
      rw [hfind'] at hslot
      cases hslot with
      | some hslot =>
      obtain ⟨before, behind, hentries, hbefore, hbehind⟩ := Table.exists_entries_of_find? hfind
      obtain ⟨before', behind', hentries', hbefore', hbehind'⟩ :=
        Table.exists_entries_of_find? hfind'
      rw [hentries, hentries', List.map_append, List.map_append, List.map_cons, List.map_cons,
        refitSlots_append, refitSlots_append]
      refine Act.mirrors_bind (mirrors_refitSlots h (List.forall_mem_map.2 hbefore)
        (List.forall_mem_map.2 hbefore')) ?_
      intro N₁ _ _ e₁ e₁' hN₁ _ htwin _
      have hheld := hN₁ _ _ _ hslot.number
      refine Act.mirrors_get_bind ?_
      rw [(htwin.progress.activeIn (htwin.names .slot) hheld).keys]
      refine Act.mirrors_bind (mirrors_refitEach htwin hheld _) ?_
      intro N₂ _ _ e₂ e₂' hN₂ _ htwin₂ _
      refine Act.mirrors_bind (mirrors_prune htwin₂ (hN₂ _ _ _ hheld)) ?_
      intro N₃ _ _ e₃ e₃' _ _ htwin₃ _
      exact mirrors_refitSlots htwin₃ (List.forall_mem_map.2 hbehind)
        (List.forall_mem_map.2 hbehind')

end Objectives

/-! ### Commands -/

/-- A command for a player runs on what he has. -/
theorem Command.perform_private {c : Command} (hc : c.player? = some p) :
    Act.Private p (c.perform (nested levels)) := by
  by_cases hdispatch : ∃ event, c = .dispatch event
  · obtain ⟨event, rfl⟩ := hdispatch
    cases hc
    exact Objectives.dispatch_private ((Engine.twin_mirroredByPlay event.player).content levels)
  · exact Command.perform_mirrored (Engine.twin_mirroredByPlay p) hc
      fun event h => hdispatch ⟨event, h⟩

/-- A change of the world after which a player has the same if he had the same before. -/
def World.Fair (p : PlayerId) (f : World → World) : Prop :=
  ∀ w w', w.Twin p w' → (f w).Twin p (f w')

/-- Whom a command is for.  A change of the world that is for a player leaves the others what they
have, and one that is for nobody in particular does to each player what hangs on him alone. -/
def Command.Addressed (who : Option PlayerId) : Command → Prop
  | changeWorld f =>
    match who with
    | none => ∀ p, World.Fair p f
    | some q => World.Fair q f ∧ ∀ p, p ≠ q → ∀ w, World.Twin p w (f w)
  | c => c.player? = who

/-- A command for another player spares a player. -/
theorem Command.perform_spares_of_addressed {c : Command} (hc : c.Addressed (some q)) (hq : q ≠ p)
    (levels : Nat) (e₀ : Engine) :
    (c.perform (nested levels)).Keeps (e₀.Spares p) fun _ => True := by
  cases c with
  | changeWorld f =>
    exact Act.keeps_modify fun e he => { he with world := he.world.trans (hc.2 p hq.symm e.world) }
  | _ =>
    refine Command.perform_spares ?_ hq levels e₀
    exact hc

/-- A command for a player, or for nobody in particular, comes to the same for him on both sides;
what it answers is the same if it is his. -/
theorem Command.mirrors_perform {c : Command} {who : Option PlayerId} (hc : c.Addressed who)
    (hwho : who.all (· = p) = true) (h : e.Twin p N e')
    (hcertain : ∀ packages, c = .replacePackages packages →
      packages.Within Demand.certain true) :
    Act.Mirrors (Engine.Twin p) N e e' (fun _ x x' => who = some p → x' = x)
      (c.perform (nested levels)) (c.perform (nested levels)) := by
  have hsame : ∀ {a : Act c.Answer}, Act.Private p a →
      Act.Mirrors (Engine.Twin p) N e e' (fun _ x x' => who = some p → x' = x) a a := fun ha =>
    (ha N e e' h).mono fun _ _ _ hx _ => hx
  cases who with
  | some q =>
    obtain rfl : q = p := by simpa using hwho
    cases c with
    | changeWorld f =>
      exact hsame (Act.mirrored_modify fun N _ _ h =>
        ⟨N, le_rfl, { h with world := hc.1 _ _ h.world }⟩)
    | _ =>
      refine hsame (Command.perform_private ?_)
      exact hc
  | none =>
    cases c with
    | tick => exact (Act.mirrors_tick h).mono fun _ _ _ _ => nofun
    | remind ticks r =>
      exact hsame fun N e e' h => Act.mirrors_remind h (by simp)
    | restore records => exact hsame (Objectives.restore_private records)
    | replacePackages packages =>
      refine hsame fun N e e' h => Act.mirrors_bind (Act.mirrors_modify
        { h with packages := rfl, certain := hcertain packages rfl }) ?_
      intro N₁ _ _ e₁ e₁' _ _ htwin _
      exact Objectives.reconcile_private N₁ e₁ e₁' htwin
    | changeWorld f =>
      exact hsame (Act.mirrored_modify fun N _ _ h =>
        ⟨N, le_rfl, { h with world := hc p _ _ h.world }⟩)
    | setClock clock =>
      exact hsame (Act.mirrored_modify fun N _ _ h => ⟨N, le_rfl, { h with clock := rfl }⟩)
    | request | check | evaluate | fire | display | value | dispatch => cases hc

/-! ### Runs -/

namespace Engine

/-- Carry out commands, each of them for a player or for nobody in particular, and write down their
answers. -/
def transcribe (levels : Nat) : List (Option PlayerId × Command) → Engine →
    Except Halt (List (Option PlayerId × (c : Command) × c.Answer) × Engine)
  | [], e => .ok ([], e)
  | (who, c) :: rest, e => do
    let (answer, e) ← e.perform levels c
    let (answers, e) ← transcribe levels rest e
    pure ((who, ⟨c, answer⟩) :: answers, e)

variable {cs : List (Option PlayerId × Command)}
  {answers : List (Option PlayerId × (c : Command) × c.Answer)}

variable {who : Option PlayerId} {c : Command} {e₁ e₂ : Engine} {answer : c.Answer}
  {rest : List (Option PlayerId × (c : Command) × c.Answer)}

theorem transcribe_cons (hfirst : e.perform levels c = .ok (answer, e₁))
    (hrest : transcribe levels cs e₁ = .ok (rest, e₂)) :
    transcribe levels ((who, c) :: cs) e = .ok ((who, ⟨c, answer⟩) :: rest, e₂) := by
  rw [transcribe, hfirst]
  show (transcribe levels cs e₁ >>= _) = _
  rw [hrest]
  rfl

/-- A run that answers has a first command that does, and a rest. -/
theorem exists_of_transcribe_cons
    (hrun : transcribe levels ((who, c) :: cs) e = .ok (answers, e₂)) :
    ∃ answer e₁ rest, e.perform levels c = .ok (answer, e₁) ∧
      transcribe levels cs e₁ = .ok (rest, e₂) ∧ answers = (who, ⟨c, answer⟩) :: rest := by
  cases hfirst : e.perform levels c with
  | error err =>
    rw [transcribe, hfirst] at hrun
    cases hrun
  | ok r =>
    cases hrest : transcribe levels cs r.2 with
    | error err =>
      rw [transcribe, hfirst] at hrun
      change (transcribe levels cs r.2 >>= _) = _ at hrun
      rw [hrest] at hrun
      cases hrun
    | ok r' =>
      cases hrun.symm.trans (transcribe_cons hfirst hrest)
      exact ⟨r.1, r.2, r'.1, rfl, hrest, rfl⟩

/-- The commands that concern a player: his own, and those that are for nobody in particular. -/
def concerning (p : PlayerId) (cs : List (Option PlayerId × Command)) :
    List (Option PlayerId × Command) :=
  cs.filter fun c => c.1.all (· = p)

/-- The answers to a player's own commands. -/
def answersTo (p : PlayerId) (answers : List (Option PlayerId × (c : Command) × c.Answer)) :
    List (Option PlayerId × (c : Command) × c.Answer) :=
  answers.filter fun a => a.1 = some p

/-- From twins, a run without the commands for others leads to twins again. -/
theorem Twin.transcribe (h : e.Twin p N e') (haddressed : ∀ c ∈ cs, c.2.Addressed c.1)
    (hcertain : ∀ c ∈ cs, ∀ packages, c.2 = .replacePackages packages →
      packages.Within Demand.certain true)
    (hrun : transcribe levels cs e = .ok (answers, e₁)) :
    ∃ N' answers' e₁', transcribe levels (concerning p cs) e' = .ok (answers', e₁') ∧
      answersTo p answers' = answersTo p answers ∧ e₁.Twin p N' e₁' := by
  induction cs generalizing N e e' answers with
  | nil =>
    cases hrun
    exact ⟨N, [], e', rfl, rfl, h⟩
  | cons c rest ih =>
    obtain ⟨who, c⟩ := c
    rw [List.forall_mem_cons] at haddressed hcertain
    obtain ⟨answer, e₂, more, hfirst, hrest, rfl⟩ := exists_of_transcribe_cons hrun
    -- What concerns the player is carried out on both sides, and anything else spares him.
    by_cases hwho : who.all (· = p) = true
    · obtain ⟨N₂, answer', e₂', -, hfirst', htwin, hanswer⟩ := Command.mirrors_perform
        haddressed.1 hwho h hcertain.1 answer e₂ hfirst
      obtain ⟨N₁, more', e₁', hrest', hmore, htwin₁⟩ :=
        ih htwin haddressed.2 hcertain.2 hrest
      refine ⟨N₁, (who, ⟨c, answer'⟩) :: more', e₁', ?_, ?_, htwin₁⟩
      · rw [concerning, List.filter_cons_of_pos (by simpa using hwho)]
        exact transcribe_cons hfirst' hrest'
      · by_cases hown : who = some p
        · rw [hanswer hown, answersTo, answersTo, List.filter_cons_of_pos (by simpa using hown),
            List.filter_cons_of_pos (by simpa using hown)]
          exact congrArg _ hmore
        · rw [answersTo, answersTo, List.filter_cons_of_neg (by simpa using hown),
            List.filter_cons_of_neg (by simpa using hown)]
          exact hmore
    · obtain ⟨q, rfl⟩ : ∃ q, who = some q := by
        cases who with
        | none => exact absurd rfl hwho
        | some q => exact ⟨q, rfl⟩
      have hq : q ≠ p := by simpa using hwho
      have hspares := (Command.perform_spares_of_addressed haddressed.1 hq levels e).of_run
        e.spares_refl hfirst
      obtain ⟨N₁, more', e₁', hrest', hmore, htwin₁⟩ :=
        ih (h.spared hspares e'.spares_refl rfl) haddressed.2 hcertain.2 hrest
      refine ⟨N₁, more', e₁', ?_, ?_, htwin₁⟩
      · rw [concerning, List.filter_cons_of_neg (by simpa using hwho)]
        exact hrest'
      · rw [answersTo, answersTo, List.filter_cons_of_neg (by simpa using hq)]
        exact hmore

/-- What a player has in two engines is the same. -/
structure SameFor (p : PlayerId) (e e' : Engine) : Prop where
  /-- What is active for him, -/
  ids : e'.progress.ids p = e.progress.ids p
  /-- with its data and since when, -/
  records (id : ObjectId) : e'.record? p id = e.record? p id
  /-- and what can be seen of it. -/
  properties (id : ObjectId) (name : String) : e'.property? p id name = e.property? p id name
  /-- The changes of his progress that wait for the archive, in order. -/
  queued : e'.drainOutbox.1.filter (·.key.1 = p) = e.drainOutbox.1.filter (·.key.1 = p)
  /-- The state of his conversation, -/
  talk : e'.sessions.state? p = e.sessions.state? p
  /-- and the lines that he has seen in it. -/
  history : e'.sessions.history p = e.sessions.history p
  /-- What the world knows of him. -/
  avatar : e'.world.avatar p = e.world.avatar p
  /-- The output that waits for him. -/
  frames : e'.world.frames.find? p = e.world.frames.find? p

theorem Twin.sameFor (h : e.Twin p N e') : e.SameFor p e' where
  ids := h.progress.ids
  records := h.record?
  properties := h.property?
  queued := by
    have hqueued : ∀ e : Engine, e.drainOutbox.1.filter (·.key.1 = p) =
        ((e.outboxOf p).getD []).reverse := by
      intro e
      simp only [drainOutbox, outboxOf, List.filter_reverse]
      cases e.outbox <;> rfl
    rw [hqueued, hqueued, h.outbox]
  talk := h.sessions.state?
  history := h.sessions.history
  avatar := h.world.avatar_eq
  frames := h.world.frames

variable {registry : Registry} {integrations : Integrations} {world : World} {archived : Bool}
  {screen : String} {clock : Calendar.Timestamp} {dice dice' : Dice}

/-- Before anything has been done two engines are twins, whatever their dice are going to show. -/
theorem twin_fresh (hdice : dice.InRange) (hdice' : dice'.InRange) (p : PlayerId) :
    (fresh registry integrations world archived screen clock dice).Twin p (fun _ _ _ => False)
      (fresh registry integrations world archived screen clock dice') where
  registry := rfl
  packages := rfl
  integrations := rfl
  defaultScreen := rfl
  clock := rfl
  certain := (Packages.authored_empty (R := fun _ => True)).within
  world := world.twin_refl
  progress := .none
  sessions := .none
  agenda := ⟨rfl, Agenda.numbered_empty, Agenda.numbered_empty, .nil⟩
  outbox := rfl
  dice := ⟨hdice, hdice'⟩
  names _ := ⟨nofun, nofun, nofun⟩

/-- **Players do not interfere.**  In a run from the beginning each command is for a player or for
nobody in particular, and no package set leaves anything to the dice.  If all commands return, then
they do so as well where those for all players but one are left out: his own commands answer the
same, and in the end what he has is the same.  The dice may show other numbers in the other run; all
of them are at least zero and below one, as dice are made. -/
theorem players_apart (hdice : dice.InRange) (hdice' : dice'.InRange)
    (haddressed : ∀ c ∈ cs, c.2.Addressed c.1)
    (hcertain : ∀ c ∈ cs, ∀ packages, c.2 = .replacePackages packages →
      packages.Within Demand.certain true)
    (hrun : transcribe levels cs (fresh registry integrations world archived screen clock dice) =
      .ok (answers, e)) (p : PlayerId) :
    ∃ answers' e', transcribe levels (concerning p cs)
        (fresh registry integrations world archived screen clock dice') = .ok (answers', e') ∧
      answersTo p answers' = answersTo p answers ∧ e.SameFor p e' := by
  obtain ⟨N, answers', e', hrun', hanswers, htwin⟩ :=
    (twin_fresh hdice hdice' p).transcribe haddressed hcertain hrun
  exact ⟨answers', e', hrun', hanswers, htwin.sameFor⟩

/-- Packages with a single objective, and a condition that always holds, though dice are rolled. -/
def lucky : Packages where
  sources := ⟨(∅ : Table String PackageSource).insert "forest"
    { PackageSource.empty with
      conditions := (∅ : Table String String).insert "luck" "chance 1"
      objectives := (∅ : Table String String).insert "wolves" "mobkill wolf 3" }⟩
  built := (Catalogue.empty.add .objective ⟨"forest", "wolves"⟩
    ⟨⟨"forest", "wolves"⟩, .kill ["wolf"] 3, [], []⟩).add .condition ⟨"forest", "luck"⟩
      (.chance (.constant 1))
  broken := []
  diagnostics := []

/-- A run for two players: Ben starts the objective before Ann does, rolls the dice before her,
joins the world and completes the objective, and the economy breaks down meanwhile. -/
def mingled : List (Option PlayerId × Command) :=
  [(none, .replacePackages lucky),
    (some ⟨"ben"⟩, .request ⟨"ben"⟩ (.startObjective ⟨"forest", "wolves"⟩)),
    (some ⟨"ann"⟩, .request ⟨"ann"⟩ (.startObjective ⟨"forest", "wolves"⟩)),
    (some ⟨"ben"⟩, .check ⟨"ben"⟩ "luck" "forest"),
    (some ⟨"ann"⟩, .check ⟨"ann"⟩ "luck" "forest"),
    (some ⟨"ben"⟩, .changeWorld (·.join ⟨"ben"⟩ (.fresh "Ben" (.ofSpot ⟨"world", 0, 64, 0⟩)))),
    (none, .changeWorld fun w => { w with economyDown := true }),
    (some ⟨"ben"⟩, .request ⟨"ben"⟩ (.completeObjective ⟨"forest", "wolves"⟩))]

theorem addressed_mingled : ∀ c ∈ mingled, c.2.Addressed c.1 := by
  simp only [mingled, List.forall_mem_cons]
  refine ⟨rfl, rfl, rfl, rfl, rfl, ⟨fun w w' h => h.join _, fun p hp w => ?_⟩, fun p w w' h => ?_,
    rfl, nofun⟩
  · exact { w.twin_refl with avatar := w.players.find?_insert_of_ne _ hp.symm }
  · exact { h with economyDown := rfl }

/-- A chance of one is certain. -/
theorem certain_one : (Quantity.constant 1).Certain := by
  intro n p e x e' h
  cases h
  exact fun hbetween => absurd hbetween.2 (by decide)

theorem certain_lucky : lucky.Within Demand.certain true := by
  intro k id d h
  have hfind := Packages.find?_of_get h
  cases k with
  | objective =>
    have hmem : (id, d) ∈ [((⟨"forest", "wolves"⟩ : ObjectId),
        (⟨⟨"forest", "wolves"⟩, .kill ["wolf"] 3, [], []⟩ : Objective))] :=
      Table.mem_entries_of_find? hfind
    cases List.mem_singleton.1 hmem
    simp [Kind.demands, Objective.demands, Goal.demands, Condition.demandsOf, Action.demandsOf]
  | condition =>
    have hmem : (id, d) ∈ [((⟨"forest", "luck"⟩ : ObjectId), Condition.chance (.constant 1))] :=
      Table.mem_entries_of_find? hfind
    cases List.mem_singleton.1 hmem
    simp [Kind.demands, Condition.demands, Quantity.demands, certain_one]
  | event | var | item | conversation => cases hfind

/-- Dice that show zero once, and then one half over and over. -/
def tumbling : Dice
  | 0 => 0
  | _ + 1 => 0.5

theorem inRange_tumbling : tumbling.InRange
  | 0 => by decide +kernel
  | _ + 1 => show (0 : Float) ≤ 0.5 ∧ (0.5 : Float) < 1 by decide +kernel

/-- An engine that has just begun, with dice of its own. -/
def dicing (dice : Dice) : Engine :=
  fresh Registry.empty ⟨true, true⟩ World.empty true "chat" ⟨0, 0⟩ dice

/-- Ann has the same objective without Ben, under another epoch, and the same luck, though the dice
show her another number. -/
theorem players_apart_of_mingled : ∃ answers e answers' e',
    transcribe 1 mingled (dicing tumbling) = .ok (answers, e) ∧
    transcribe 1 (concerning ⟨"ann"⟩ mingled) (dicing fun _ => 0) = .ok (answers', e') ∧
    answersTo ⟨"ann"⟩ answers' = answersTo ⟨"ann"⟩ answers ∧ e.SameFor ⟨"ann"⟩ e' ∧
    (e.progress.find? ⟨"ann"⟩ ⟨"forest", "wolves"⟩).map Active.epoch = some 1 ∧
    (e'.progress.find? ⟨"ann"⟩ ⟨"forest", "wolves"⟩).map Active.epoch = some 0 := by
  have htry : passes (transcribe 1 mingled (dicing tumbling)) (fun r =>
      (r.2.progress.find? ⟨"ann"⟩ ⟨"forest", "wolves"⟩).map Active.epoch == some 1) = true := by
    decide +kernel
  have htry' : passes (transcribe 1 (concerning ⟨"ann"⟩ mingled) (dicing fun _ => 0)) (fun r =>
      (r.2.progress.find? ⟨"ann"⟩ ⟨"forest", "wolves"⟩).map Active.epoch == some 0) = true := by
    decide +kernel
  obtain ⟨⟨answers, e⟩, hrun, hepoch⟩ := exists_of_passes htry
  obtain ⟨⟨answers₂, e₂⟩, hrun₂, hepoch₂⟩ := exists_of_passes htry'
  have hcertain : ∀ c ∈ mingled, ∀ packages, c.2 = .replacePackages packages →
      packages.Within Demand.certain true := by
    simp only [mingled, List.forall_mem_cons]
    refine ⟨fun packages h => ?_, nofun, nofun, nofun, nofun, nofun, nofun, nofun, nofun⟩
    cases h
    exact certain_lucky
  obtain ⟨answers', e', hrun', hanswers, hsame⟩ := players_apart inRange_tumbling
    (fun _ => inRange_tumbling 0 : Dice.InRange fun _ => 0) addressed_mingled hcertain hrun ⟨"ann"⟩
  cases hrun'.symm.trans hrun₂
  exact ⟨answers, e, _, _, hrun, hrun', hanswers, hsame, beq_iff_eq.1 hepoch,
    beq_iff_eq.1 hepoch₂⟩

end Engine

end Questbook
