/-
Questbook/Proofs/Engine/Delays.lean

Delays of folders.

A folder with a delay fires its events so many ticks later.  The delay is any number of 64 bits, and
it is added to a clock of 64 bits when the folder is fired: up to the last tick that the clock can
reach the events wait for just that tick, and beyond it there is no tick to wait for, and the engine
stops.  So whether a folder can be fired depends on how long the clock has been running.

Main results: `folder_written` for the line, `Action.fire_folder_run` for the event, and
`Follows.waits` for the time until its tick.
-/
import Questbook.Proofs.Package.Evaluate
import Questbook.Proofs.Package.Written
import Questbook.Proofs.Engine.Authored
import Questbook.Proofs.Engine.Punctual
import Questbook.Proofs.Engine.Settling

namespace Questbook

/-! ### Lines -/

/-- The number of ticks that an option gives, none where it is missing. -/
def delayOf? : Option String → Option Nat
  | none => some 0
  | some raw => Decimal.unsigned? Decimal.maxUnsigned64 raw

theorem delayOf?_le {value : Option String} {ticks : Nat} (h : delayOf? value = some ticks) :
    ticks ≤ Decimal.maxUnsigned64 := by
  cases value with
  | none =>
    cases h
    exact Nat.zero_le _
  | some raw => exact Vocabulary.unsigned?_le h

/-- A delay that is read is the number that the option gives. -/
theorem Vocabulary.exists_of_delay {line line' : Line} {ticks : Nat}
    (h : line.read Vocabulary.delay = (.ok ticks, line')) :
    ∃ value, line.read (Line.optional "delay") = (.ok value, line') ∧
      delayOf? value = some ticks := by
  obtain ⟨value, line₁, hoptional, h⟩ := Line.exists_of_read_bind h
  cases value with
  | none =>
    cases h
    exact ⟨none, hoptional, rfl⟩
  | some raw =>
    dsimp only at h
    split at h
    · rename_i n hn
      cases h
      exact ⟨some raw, hoptional, hn⟩
    · cases h

section

variable {registry : Registry} {sources : Sources} {id : ObjectId}

/-- What is compiled of a folder: the events that it lists and the delay that it gives. -/
theorem folder_written (hfolder : registry.events.find? "folder" = some Vocabulary.folder)
    {raw : String} {line : Line} (hraw : sources.line? .event id = some raw)
    (hline : Line.parse id raw = .ok line) (hkeyword : line.keyword = "folder") {event : Event}
    (h : (Packages.compile registry sources).get .event id = .ok event) :
    ∃ names line₁ value line₂ raws line₃ ticks events,
      line.read (Line.optionalList "conditions") = (.ok names, line₁) ∧
      line₁.read (Line.optional "delay") = (.ok value, line₂) ∧ delayOf? value = some ticks ∧
      line₂.read Line.nextList = (.ok raws, line₃) ∧
      List.Forall₂ (fun name e => ∃ d,
        (Packages.compile registry sources).resolve name .event id.package = .ok d ∧
          e = ⟨d.id, d.target⟩) raws events ∧
      event.content = .folder ticks events := by
  obtain ⟨raw', line', hraw', hline', hdraft⟩ := event_written h
  rw [hraw] at hraw'
  cases hraw'
  rw [hline] at hline'
  cases hline'
  obtain ⟨names, line₁, hnames, hkeyword₁, -, hcontent⟩ := Registry.exists_of_event hdraft
  unfold Registry.byKeyword at hcontent
  rw [hkeyword₁, hkeyword, hfolder] at hcontent
  obtain ⟨ticks, line₂, hdelay, hcontent⟩ := Plan.exists_of_succeeds_read hcontent
  obtain ⟨raws, line₃, hraws, hcontent⟩ := Plan.exists_of_succeeds_read hcontent
  obtain ⟨events, hevents, hcontent⟩ := Plan.exists_of_succeeds_map hcontent
  obtain ⟨value, hvalue, hticks⟩ := Vocabulary.exists_of_delay hdelay
  refine ⟨names, line₁, value, line₂, raws, line₃, ticks, events, hnames, hvalue, hticks, hraws, ?_,
    hcontent.symm⟩
  refine Plan.forall₂_of_succeeds_each (fun name x e he => ?_) hevents
  exact event_met_iff_resolve.1 (Plan.met_of_refer he)

end

/-! ### The clock -/

section

variable {α : Type} {b b' : Bench α} {os : List (Occurrence α)} {a : Appointment α}

theorem Follows.tick_le (h : Follows b os b') : b.agenda.tick ≤ b'.agenda.tick := by
  induction h with
  | nil => exact le_rfl
  | cons hstep _ ih =>
    cases hstep with
    | schedule hs =>
      obtain ⟨-, rfl⟩ := Agenda.after?_eq_some_iff.1 hs
      exact ih
    | tick => exact (Nat.le_succ _).trans ih
    | run => exact ih

/-- Whatever happens, work waits until its tick comes. -/
theorem Follows.waits (h : Follows b os b') (ha : a ∈ b.agenda.waiting)
    (hearly : b'.agenda.tick < a.due) : a ∈ b'.agenda.waiting := by
  induction h with
  | nil => exact ha
  | cons hstep hrest ih =>
    refine ih ?_ hearly
    cases hstep with
    | schedule hs =>
      obtain ⟨-, rfl⟩ := Agenda.after?_eq_some_iff.1 hs
      exact List.mem_cons_of_mem _ ha
    | tick s =>
      have hlater : s.tick + 1 < a.due := lt_of_le_of_lt hrest.tick_le hearly
      rw [Agenda.advance_eq]
      exact List.mem_filter.2 ⟨ha, by simpa using hlater⟩
    | run => exact ha

/-- On its tick it is taken out. -/
theorem Agenda.mem_advance {s : Agenda α} (ha : a ∈ s.waiting) (hdue : a.due = s.tick + 1) :
    a ∈ s.advance.1 := by
  rw [advance_eq]
  exact (List.mergeSort_perm _ _).mem_iff.2 (List.mem_filter.2 ⟨ha, by simpa using hdue.le⟩)

end

/-! ### Firing -/

section

variable {levels : Nat} {p : PlayerId} {e e₁ : Engine} {event : Event} {ticks : Nat}
  {events : List EventRef}

/-- Whether conditions hold does not depend on what the clock does meanwhile: it stands still. -/
theorem AllMet.tick_eq {conditions : List ConditionRef}
    (h : AllMet (nested levels) p conditions e e₁) : e₁.agenda.tick = e.agenda.tick := by
  have hplay := (Engine.schedules_keptByAgenda e.packages e.agenda).play levels p
  obtain ⟨calls, hcalls⟩ := ((allHold_keeps hplay.content (Set.subset_univ _)).of_run (.refl e)
    h.run).calls
  exact Agenda.tick_afterAll? hcalls

/-- An event whose conditions are met carries out its action. -/
theorem Action.fire_of_allMet {n : Nested} {a : Act Unit} (h : AllMet n p event.conditions e e₁)
    (hcontent : event.content.perform n p = liftM a) :
    (Action.fire n p event).run e = (a >>= fun _ => pure true).run e₁ := by
  obtain ⟨conditions, content⟩ := event
  have hattempt : Act.attempt (content.perform n p) = Except.ok <$> a := by
    rw [hcontent]
    rfl
  unfold Action.fire
  rw [Act.run_bind_of_run h.run, if_pos rfl, hattempt]
  show (((fun _ => ()) <$> (Except.ok <$> a) : Act Unit) >>= fun _ => pure true).run e₁ = _
  rw [bind_map_left, bind_map_left]

/-- A folder whose conditions are met fires its events, or puts them off by its delay. -/
theorem Action.fire_folder_run (h : AllMet (nested levels) p event.conditions e e₁)
    (hcontent : event.content = .folder ticks events) :
    (Action.fire (nested levels) p event).run e =
      ((if ticks = 0 then Action.fireEach (nested levels) p events
        else Act.later [(ticks, .fire p events)]) >>= fun _ => pure true).run e₁ := by
  refine Action.fire_of_allMet h ?_
  rw [hcontent, Action.perform]
  split <;> rfl

/-- Work for a tick that the clock can reach is put on the agenda, on top. -/
theorem Act.later_run {t : Task} (hrange : e.agenda.dueAfter ticks ≤ Agenda.lastTick) :
    (Act.later [(ticks, t)]).run e = .ok ((), { e with agenda :=
      ⟨e.agenda.tick, e.agenda.issued + 1,
        ⟨e.agenda.dueAfter ticks, e.agenda.issued, t⟩ :: e.agenda.waiting⟩ }) := by
  have hafter : e.agenda.afterAll? [(ticks, t)] = e.agenda.after? ticks t := Option.bind_fun_some _
  unfold later
  rw [run_get_bind, hafter, Agenda.after?_eq_some_iff.2 ⟨hrange, rfl⟩]
  rfl

theorem Act.later_halts {t : Task} (hrange : ¬ e.agenda.dueAfter ticks ≤ Agenda.lastTick) :
    (Act.later [(ticks, t)]).run e = .error .overflow := by
  have hafter : e.agenda.afterAll? [(ticks, t)] = none := by
    refine (Option.bind_fun_some _).trans ?_
    simp only [Agenda.after?, if_neg hrange]
  unfold later
  rw [run_get_bind, hafter]
  rfl

end

/-- **Delays are kept within the range of the clock.**

What is compiled of a line with the keyword of a folder is the list of the events that it names,
with the delay that it gives, of 64 bits.  Whenever such an event is fired and its conditions are
met:

* without a delay its events are fired at once;
* with a delay up to the last tick of the clock they are due just so many ticks later, wait until
  then whatever is asked of the engine, and are taken out on their tick;
* with a delay beyond that the engine stops.
-/
theorem delay_kept_within_range {registry : Registry} {sources : Sources} {id : ObjectId}
    (hfolder : registry.events.find? "folder" = some Vocabulary.folder)
    {raw : String} {line : Line} (hraw : sources.line? .event id = some raw)
    (hline : Line.parse id raw = .ok line) (hkeyword : line.keyword = "folder") {event : Event}
    (h : (Packages.compile registry sources).get .event id = .ok event) :
    ∃ names line₁ value line₂ raws line₃ ticks events,
      line.read (Line.optionalList "conditions") = (.ok names, line₁) ∧
      line₁.read (Line.optional "delay") = (.ok value, line₂) ∧ delayOf? value = some ticks ∧
      line₂.read Line.nextList = (.ok raws, line₃) ∧
      List.Forall₂ (fun name e => ∃ d,
        (Packages.compile registry sources).resolve name .event id.package = .ok d ∧
          e = ⟨d.id, d.target⟩) raws events ∧
      event.content = .folder ticks events ∧ ticks < 2 ^ 64 ∧
      ∀ levels p e e₁, AllMet (nested levels) p event.conditions e e₁ →
        (ticks = 0 → (Action.fire (nested levels) p event).run e =
          (Action.fireEach (nested levels) p events >>= fun _ => pure true).run e₁) ∧
        (0 < ticks → e.agenda.tick + ticks < 2 ^ 64 →
          ∃ e' a, (Action.fire (nested levels) p event).run e = .ok (true, e') ∧
            a.due = e.agenda.tick + ticks ∧ a.number = e₁.agenda.issued ∧
            a.task = .fire p events ∧
            e' = { e₁ with agenda :=
              ⟨e.agenda.tick, e₁.agenda.issued + 1, a :: e₁.agenda.waiting⟩ } ∧
            ∀ cs e'', Engine.performAll levels cs e' = .ok e'' →
              (e''.agenda.tick < a.due → a ∈ e''.agenda.waiting) ∧
              (a.due = e''.agenda.tick + 1 → a ∈ e''.agenda.advance.1)) ∧
        (0 < ticks → 2 ^ 64 ≤ e.agenda.tick + ticks →
          (Action.fire (nested levels) p event).run e = .error .overflow) := by
  obtain ⟨names, line₁, value, line₂, raws, line₃, ticks, events, hnames, hvalue, hticks, hraws,
    hevents, hcontent⟩ := folder_written hfolder hraw hline hkeyword h
  have hbound : ticks < 2 ^ 64 := Nat.lt_succ_of_le (delayOf?_le hticks)
  refine ⟨names, line₁, value, line₂, raws, line₃, ticks, events, hnames, hvalue, hticks, hraws,
    hevents, hcontent, hbound, ?_⟩
  intro levels p e e₁ hmet
  have hfire := Action.fire_folder_run hmet hcontent
  -- The conditions take no tick, so that the delay counts from the one of the event.
  have hdue (hsome : 0 < ticks) : e₁.agenda.dueAfter ticks = e.agenda.tick + ticks := by
    rw [Agenda.dueAfter, hmet.tick_eq, max_eq_left (Nat.succ_le_of_lt hsome)]
  refine ⟨?_, ?_, ?_⟩
  · intro hnone
    rwa [if_pos hnone] at hfire
  · intro hsome hrange
    rw [if_neg hsome.ne'] at hfire
    have hlast : e₁.agenda.dueAfter ticks ≤ Agenda.lastTick := by
      rw [hdue hsome]
      exact Nat.le_of_lt_succ hrange
    refine ⟨_, ⟨e₁.agenda.dueAfter ticks, e₁.agenda.issued, .fire p events⟩, ?_, hdue hsome,
      rfl, rfl, rfl, ?_⟩
    · rw [hfire, Act.run_bind_of_run (Act.later_run hlast), hmet.tick_eq]
      rfl
    · intro cs e'' hrun
      obtain ⟨os, -, hfollows⟩ := Engine.exists_tells hrun
      have hwaits := hfollows.waits List.mem_cons_self
      exact ⟨hwaits, fun hnext =>
        Agenda.mem_advance (hwaits (hnext ▸ Nat.lt_succ_self _)) hnext⟩
  · intro hsome hbeyond
    rw [if_neg hsome.ne'] at hfire
    have hlast : ¬ e₁.agenda.dueAfter ticks ≤ Agenda.lastTick := by
      rw [hdue hsome]
      exact Nat.not_le_of_lt hbeyond
    rw [hfire, StateT.run_bind, Act.later_halts hlast]
    rfl

/-! ### A tower -/

/-- A tower with a bell that rings some ticks later. -/
def tower : Sources where
  packages := (∅ : Table String PackageSource).insert "tower" { PackageSource.empty with
    events := .ofList [("late", "folder ring delay:18446744073709551615"), ("ring", "notify ding"),
      ("soon", "folder ring delay:3")] }

theorem compile_tower : Packages.compile (Vocabulary.registry ⟨true, true⟩) tower =
    compileWithin (Vocabulary.registry ⟨true, true⟩) tower 4 :=
  (compileWithin_eq (show 3 < 4 by decide) (by decide)).symm

/-- Where nothing waits, a tick advances the clock and does nothing else. -/
theorem Engine.tick_of_waiting_nil {levels : Nat} {e : Engine} (h : e.agenda.waiting = []) :
    e.perform levels .tick =
      .ok ((0 : Nat), { e with agenda := ⟨e.agenda.tick + 1, e.agenda.issued, []⟩ }) := by
  have hadvance : e.agenda.advance = ([], ⟨e.agenda.tick + 1, e.agenda.issued, []⟩) := by
    rw [Agenda.advance_eq, h]
    simp
  show (Act.tick (nested levels)).run e = _
  unfold Act.tick
  rw [Act.run_get_bind, hadvance]
  rfl

/-- How the engine stops, if it does. -/
def haltOf? {α : Type} : Except Halt α → Option Halt
  | .ok _ => none
  | .error halt => some halt

theorem eq_error_of_haltOf? {α : Type} {result : Except Halt α} {halt : Halt}
    (h : haltOf? result = some halt) : result = .error halt := by
  cases result with
  | ok x => cases h
  | error halt' => exact congrArg Except.error (Option.some.inj h)

/-- An engine with the tower in force, when its clock has been advanced once. -/
def towering (K : Packages) : Engine :=
  { Engine.idle with packages := K, agenda := ⟨1, 0, []⟩ }

theorem performAll_towering {K : Packages} :
    Engine.performAll 1 [.replacePackages K, .tick] Engine.idle = .ok (towering K) := by
  have hreload : Engine.idle.perform 1 (.replacePackages K) =
      .ok ((), { Engine.idle with packages := K }) := rfl
  have htick : Engine.perform 1 .tick { Engine.idle with packages := K } =
      .ok ((0 : Nat), towering K) := Engine.tick_of_waiting_nil rfl
  simp only [Engine.performAll, hreload, htick, bind, Except.bind]

/-- **A delay that is out of range.**  The events of the tower are compiled without a complaint.
Once the clock has been advanced, firing the one with the longest delay stops the engine. -/
theorem delay_overflows :
    (Packages.compile (Vocabulary.registry ⟨true, true⟩) tower).diagnostics = [] ∧
    ∃ e, Engine.performAll 1 [.replacePackages (Packages.compile (Vocabulary.registry ⟨true, true⟩)
        tower), .tick] Engine.idle = .ok e ∧ e.agenda.tick = 1 ∧
      e.perform 1 (.fire ⟨"ann"⟩ "late" "tower") = .error .overflow := by
  rw [compile_tower]
  refine ⟨by decide +kernel, _, performAll_towering, rfl, eq_error_of_haltOf? ?_⟩
  decide +kernel

/-- The bell of the tower, set for three ticks later, waits for the fourth tick. -/
theorem delay_kept_within_range_of_tower :
    ∃ event, (Packages.compile (Vocabulary.registry ⟨true, true⟩) tower).get .event
        ⟨"tower", "soon"⟩ = .ok event ∧ event.conditions = [] ∧
      ∃ e' a, (Action.fire (nested 1) ⟨"ann"⟩ event).run (towering
          (Packages.compile (Vocabulary.registry ⟨true, true⟩) tower)) = .ok (true, e') ∧
        a ∈ e'.agenda.waiting ∧ a.due = 4 := by
  obtain ⟨event, hget, hconditions⟩ : ∃ event, (Packages.compile (Vocabulary.registry ⟨true, true⟩)
      tower).get .event ⟨"tower", "soon"⟩ = .ok event ∧ event.conditions = [] := by
    rw [compile_tower]
    have hok : (match (compileWithin (Vocabulary.registry ⟨true, true⟩) tower 4).get .event
        ⟨"tower", "soon"⟩ with
      | .ok event => event.conditions.isEmpty
      | .error _ => false) = true := by decide +kernel
    split at hok
    · rename_i event hget
      exact ⟨event, hget, List.isEmpty_iff.1 hok⟩
    · cases hok
  let line : Line :=
    ⟨⟨"tower", "soon"⟩, "folder ring delay:3", "folder", [⟨"ring", false⟩, ⟨"delay:3", false⟩], 0⟩
  have hline : Line.parse ⟨"tower", "soon"⟩ "folder ring delay:3" = .ok line := by decide +kernel
  have hdelay : ((line.read (Line.optionalList "conditions")).2.read
      (Line.optional "delay")).1 = .ok (some "3") := by decide +kernel
  have hraw : tower.line? .event ⟨"tower", "soon"⟩ = some "folder ring delay:3" := rfl
  obtain ⟨names, line₁, value, line₂, raws, line₃, ticks, events, hnames, hvalue, hticks,
    -, -, -, -, hfires⟩ := delay_kept_within_range rfl hraw hline rfl hget
  rw [hnames, hvalue] at hdelay
  cases hdelay
  cases hticks
  have hmet : AllMet (nested 1) ⟨"ann"⟩ event.conditions (towering (Packages.compile
      (Vocabulary.registry ⟨true, true⟩) tower)) (towering (Packages.compile
      (Vocabulary.registry ⟨true, true⟩) tower)) := by
    rw [hconditions]
    exact .nil _
  obtain ⟨-, hwaits, -⟩ := hfires 1 ⟨"ann"⟩ _ _ hmet
  obtain ⟨e', a, hrun, hdue, -, -, rfl, -⟩ := hwaits (by decide) (by decide)
  exact ⟨event, hget, hconditions, _, a, hrun, List.mem_cons_self, hdue⟩

end Questbook
