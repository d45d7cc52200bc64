/-
Questbook/Proofs/Engine/Rechecks.lean

What becomes of the checks that wait.

A tick carries out the checks that have been put off one after another, and each of them may
complete, cancel or start again what the later ones were put off for.  A check goes by the epoch
that its objective was active under when it was put off: it is dropped unless the objective is
active under that epoch still.  Epochs are used once, so that this is the same start.

Main result: `stale_checks_dropped`.
-/
import Questbook.Proofs.Engine.Completion
import Questbook.Proofs.Engine.Deferral

namespace Questbook

open Engine

/-! ### Chains of moves -/

/-- What the journal tells stays told. -/
theorem Ledger.Moves.times_le {l l' : Ledger} (h : l.Moves l') (epoch : Nat) (what : Happening) :
    l.journal.times epoch what ≤ l'.journal.times epoch what := by
  induction h with
  | refl => exact Nat.le_refl _
  | tail _ hmove ih =>
    refine Nat.le_trans ih ?_
    cases hmove <;>
      simp only [Ledger.mark, Ledger.assign, Ledger.issue, Journal.times_cons] <;> omega

theorem Task.run_stepwise (levels : Nat) (t : Task) : Act.Stepwise .play (t.run (nested levels)) :=
  Act.stepwise_of_keeps fun e₀ => Task.run_keeps ((steps_keptByProgress e₀).host ()).toKeptByTime
    (fun p => ((steps_keptByProgress e₀).play levels p ()).toKeptByGoals) (Set.subset_univ _)

theorem Task.runEach_stepwise (levels : Nat) (due : List (Appointment Task)) :
    Act.Stepwise .play (runEach (nested levels) due) :=
  Act.stepwise_of_keeps fun e₀ =>
    Task.runEach_keeps ((steps_keptByProgress e₀).host ()).toKeptByTime
      (fun p => ((steps_keptByProgress e₀).play levels p ()).toKeptByGoals)
      fun _ _ => Set.subset_univ _

/-! ### A check is carried out -/

namespace Objectives

variable {n : Nested} {p : PlayerId} {id : ObjectId} {epoch : Nat} {check : Recheck} {e e' : Engine}

/-- What a check that waits comes to.  If its objective is not active under the epoch any more,
nothing happens.  Otherwise the check is run, and unless it is passed nothing happens any more. -/
theorem resume_cases (h : (resume n p id epoch check).run e = .ok ((), e')) :
    ((∀ active, e.progress.find? p id = some active → active.epoch ≠ epoch) ∧ e' = e) ∨
    ∃ active r e₁, e.progress.find? p id = some active ∧ active.epoch = epoch ∧
      (Act.attempt (check.passes n p)).run e = .ok (r, e₁) ∧ (r = .ok true ∨ e' = e₁) := by
  obtain ⟨_, _, hget, h⟩ := Act.exists_of_run_bind h
  cases hget
  cases hheld : e.progress.held? p with
  | none =>
    rw [hheld] at h
    cases h
    refine .inl ⟨fun active hactive => ?_, rfl⟩
    rw [Slots.find?_of_held?_eq_none _ _ _ hheld] at hactive
    cases hactive
  | some held =>
    rw [hheld] at h
    obtain ⟨_, _, hget, h⟩ := Act.exists_of_run_bind h
    cases hget
    have hfind := e.progress.findIn?_of_held? p held id hheld
    split at h
    · rename_i hcurrent
      obtain ⟨active, hactive, hepoch⟩ := (Slots.isCurrent_iff _ _ _ _).1 hcurrent
      obtain ⟨r, e₁, hpasses, h⟩ := Act.exists_of_run_bind h
      refine .inr ⟨active, r, e₁, hfind ▸ hactive, hepoch, hpasses, ?_⟩
      match r with
      | .error err =>
        cases h
        exact .inr rfl
      | .ok false =>
        cases h
        exact .inr rfl
      | .ok true => exact .inl rfl
    · rename_i hcurrent
      cases h
      refine .inl ⟨fun active hactive hepoch => hcurrent ?_, rfl⟩
      exact (Slots.isCurrent_iff _ _ _ _).2 ⟨active, hfind.trans hactive, hepoch⟩

end Objectives

/-! ### The tasks of a tick -/

theorem Task.runEach_append (n : Nested) (done rest : List (Appointment Task)) :
    runEach n (done ++ rest) = runEach n done >>= fun _ => runEach n rest := by
  induction done with
  | nil => simp [runEach]
  | cons s done ih => simp [runEach, ih]

/-- A run of many tasks goes on from where the first of them have led. -/
theorem Task.runEach_rest {n : Nested} {done rest : List (Appointment Task)} {s : Appointment Task}
    {e e₁ e₂ e' : Engine} (h : (runEach n (done ++ s :: rest)).run e = .ok ((), e'))
    (hdone : (runEach n done).run e = .ok ((), e₁)) (hrun : (s.task.run n).run e₁ = .ok ((), e₂)) :
    (runEach n rest).run e₂ = .ok ((), e') := by
  rw [Task.runEach_append, Act.run_bind_of_run hdone] at h
  exact (Act.run_bind_of_run hrun).symm.trans h

namespace Engine

variable {levels : Nat} {start e e₁ e₂ e₁' e₂' : Engine} {cs cs' all : List Command}
  {done done' : List (Appointment Task)} {s s' : Appointment Task} {p : PlayerId} {o : ObjectId}
  {epoch : Nat} {check : Recheck}

/-- On the tick that follows the run of `cs`, after the tasks `done`, it is the turn of the task
`s`, which finds the state `e₁` and leaves `e₂`. -/
inductive CarriesOut (levels : Nat) (start : Engine) (cs : List Command)
    (done : List (Appointment Task)) (s : Appointment Task) (e₁ e₂ : Engine) : Prop
  | intro {e : Engine} {rest : List (Appointment Task)}
      (hbefore : performAll levels cs start = .ok e)
      (hdue : e.agenda.advance.1 = done ++ s :: rest)
      (hdone : (Task.runEach (nested levels) done).run { e with agenda := e.agenda.advance.2 } =
        .ok ((), e₁))
      (hrun : (s.task.run (nested levels)).run e₁ = .ok ((), e₂))

theorem CarriesOut.moves_before (h : CarriesOut levels start cs done s e₁ e₂) :
    start.ledger.Moves e₁.ledger := by
  obtain ⟨hbefore, -, hdone, -⟩ := h
  exact (performAll_moves hbefore).trans (Task.runEach_stepwise levels done _ _ _ hdone).moves

theorem CarriesOut.moves (h : CarriesOut levels start cs done s e₁ e₂) :
    e₁.ledger.Moves e₂.ledger := by
  obtain ⟨-, -, -, hrun⟩ := h
  exact (Task.run_stepwise levels s.task _ _ _ hrun).moves

/-- If the task is a check, the state that it leaves is the one that a resumed check leads to. -/
theorem CarriesOut.resume_run (h : CarriesOut levels start cs done s e₁ e₂)
    (hs : s.task = .recheck p o epoch check) :
    (Objectives.resume (nested levels) p o epoch check).run e₁ = .ok ((), e₂) := by
  cases h with
  | intro _ _ _ hrun => simpa only [hs, Task.run] using hrun

/-- On one tick, the task that comes first moves on to the one that comes later. -/
theorem CarriesOut.moves_of_length_lt (h : CarriesOut levels start cs done s e₁ e₂)
    (h' : CarriesOut levels start cs done' s' e₁' e₂') (hlt : done.length < done'.length) :
    e₂.ledger.Moves e₁'.ledger := by
  cases h with
  | @intro e rest hbefore hdue hdone hrun =>
    cases h' with
    | @intro _ rest' hbefore' hdue' hdone' hrun' =>
      cases hbefore.symm.trans hbefore'
      -- What is done before the later task begins with what is done by the end of the earlier one.
      have hinit : done ++ [s] <+: e.agenda.advance.1 := ⟨rest, by rw [hdue]; simp⟩
      have hinit' : done' <+: e.agenda.advance.1 := ⟨_, hdue'.symm⟩
      obtain ⟨more, hmore⟩ := List.prefix_of_prefix_length_le hinit hinit'
        (by simpa using Nat.succ_le_of_lt hlt)
      rw [List.append_assoc] at hmore
      subst hmore
      exact (Task.runEach_stepwise levels more _ _ _ (Task.runEach_rest hdone' hdone hrun)).moves

/-- On an earlier tick, a task moves on to those of the later ones. -/
theorem CarriesOut.moves_of_prefix (h : CarriesOut levels start cs done s e₁ e₂)
    (h' : CarriesOut levels start cs' done' s' e₁' e₂') (hinit : cs ++ [.tick] <+: cs') :
    e₂.ledger.Moves e₁'.ledger := by
  obtain ⟨more, rfl⟩ := hinit
  cases h' with
  | @intro e' _ hbefore' _ hdone' _ =>
    rw [performAll_append] at hbefore'
    cases hticked : performAll levels (cs ++ [.tick]) start with
    | error err =>
      rw [hticked] at hbefore'
      cases hbefore'
    | ok ticked =>
      rw [hticked] at hbefore'
      obtain ⟨e₀, count, hbefore₀, htick⟩ := performAll_concat hticked
      have hall := tick_run htick
      cases h with
      | @intro e rest hbefore hdue hdone hrun =>
        cases hbefore.symm.trans hbefore₀
        rw [hdue] at hall
        have hrest := Task.runEach_rest hall hdone hrun
        have hticked : e₂.ledger.Moves ticked.ledger :=
          (Task.runEach_stepwise levels rest _ _ _ hrest).moves
        have hdone : Ledger.Moves e'.ledger e₁'.ledger :=
          (Task.runEach_stepwise levels done' _ _ _ hdone').moves
        exact (hticked.trans (performAll_moves hbefore')).trans hdone

/-- In one run, a task comes after another one or before it, unless it is the same. -/
theorem CarriesOut.trichotomy (h : CarriesOut levels start cs done s e₁ e₂)
    (h' : CarriesOut levels start cs' done' s' e₁' e₂') (hcs : cs ++ [.tick] <+: all)
    (hcs' : cs' ++ [.tick] <+: all) :
    cs = cs' ∧ done = done' ∨ e₂.ledger.Moves e₁'.ledger ∨ e₂'.ledger.Moves e₁.ledger := by
  have hinit : cs <+: all := (List.prefix_append _ _).trans hcs
  have hinit' : cs' <+: all := (List.prefix_append _ _).trans hcs'
  rcases Nat.lt_trichotomy cs.length cs'.length with hlt | heq | hlt
  · have hearlier : cs ++ [.tick] <+: cs' :=
      List.prefix_of_prefix_length_le hcs hinit' (by simpa using Nat.succ_le_of_lt hlt)
    exact .inr (.inl (h.moves_of_prefix h' hearlier))
  · obtain rfl := (List.prefix_of_prefix_length_le hinit hinit' heq.le).eq_of_length heq
    rcases Nat.lt_trichotomy done.length done'.length with hlt | heq | hlt
    · exact .inr (.inl (h.moves_of_length_lt h' hlt))
    · cases h with
      | intro hbefore hdue _ _ =>
        cases h' with
        | intro hbefore' hdue' _ _ =>
          cases hbefore.symm.trans hbefore'
          exact .inl ⟨rfl, (List.append_inj (hdue.symm.trans hdue') heq).1⟩
    · exact .inr (.inr (h'.moves_of_length_lt h hlt))
  · have hearlier : cs' ++ [.tick] <+: cs :=
      List.prefix_of_prefix_length_le hcs' hinit (by simpa using Nat.succ_le_of_lt hlt)
    exact .inr (.inr (h'.moves_of_prefix h hearlier))

/-! ### Checks that have been put off -/

variable {registry : Registry} {integrations : Integrations} {world : World} {archived : Bool}
  {screen : String} {clock : Calendar.Timestamp} {dice : Dice}

/-- Whatever a tick carries out, it has been waiting; if it is a check, it goes back to a dispatch
since the tick before. -/
theorem CarriesOut.deferred (h : CarriesOut levels start cs done s e₁ e₂)
    (hstart : start.agenda.waiting = []) (hs : s.task = .recheck p o epoch check) :
    ∃ before event after e₀, event.player = p ∧
      Deferred levels start cs before after event e₀ o epoch check := by
  cases h with
  | @intro e rest hbefore hdue _ _ =>
    have hwaiting : s ∈ e.agenda.waiting := Agenda.mem_of_mem_advance (by simp [hdue])
    obtain ⟨hmem, -⟩ := (deferred_of_performAll hstart hbefore).checks s hwaiting p o epoch check hs
    obtain ⟨before, event, after, e₀, id, epoch', check', htask, hdeferred⟩ := hmem
    rw [hs] at htask
    cases htask
    exact ⟨before, event, after, e₀, rfl, hdeferred⟩

theorem CarriesOut.charted (h : CarriesOut levels
    (fresh registry integrations world archived screen clock dice) cs done s e₁ e₂) :
    e₁.Charted ∧ e₂.Charted := by
  have hbefore := (charted_fresh registry integrations world archived screen clock dice).of_moves
    h.moves_before
  exact ⟨hbefore, hbefore.of_moves h.moves⟩

/-- **Stale checks are dropped.**  When on a tick of a run it is the turn of a check that was put
off under an epoch of an objective:

* a dispatch since the tick before has put it off, when the objective was active under the epoch;
* it changes nothing if the objective is not active under that epoch any more, or if the epoch has
  ended in whatever way;
* if the objective is active under the epoch still, the check is run, and it must be passed for
  anything else to happen;
* an epoch is rewarded at most once, so that of all that ticks carry out in a run, on one tick or on
  several, one check at most completes what was started under the epoch. -/
theorem stale_checks_dropped
    (h : CarriesOut levels (fresh registry integrations world archived screen clock dice) cs done s
      e₁ e₂)
    (hs : s.task = .recheck p o epoch check) :
    (∃ before event after e₀, event.player = p ∧
      Deferred levels (fresh registry integrations world archived screen clock dice) cs before after
        event e₀ o epoch check) ∧
    ((∀ active, e₁.progress.find? p o = some active → active.epoch ≠ epoch) → e₂ = e₁) ∧
    (∀ how, 0 < e₁.journal.times epoch (.ended how) → e₂ = e₁) ∧
    (∀ active, e₁.progress.find? p o = some active → active.epoch = epoch → ∃ r e,
      (Act.attempt (check.passes (nested levels) p)).run e₁ = .ok (r, e) ∧
        (r = .ok true ∨ e₂ = e)) ∧
    e₂.journal.times epoch .rewarded ≤ 1 ∧
    ∀ all cs' done' s' e₁' e₂', cs ++ [.tick] <+: all → cs' ++ [.tick] <+: all →
      CarriesOut levels (fresh registry integrations world archived screen clock dice) cs' done' s'
        e₁' e₂' →
      e₁.journal.times epoch .rewarded < e₂.journal.times epoch .rewarded →
      e₁'.journal.times epoch .rewarded < e₂'.journal.times epoch .rewarded →
      cs = cs' ∧ done = done' := by
  have hcases := Objectives.resume_cases (h.resume_run hs)
  have hstale (hnone : ∀ active, e₁.progress.find? p o = some active → active.epoch ≠ epoch) :
      e₂ = e₁ := by
    rcases hcases with ⟨-, hsame⟩ | ⟨active, _, _, hactive, hepoch, -⟩
    · exact hsame
    · exact absurd hepoch (hnone active hactive)
  obtain ⟨hcharted₁, hcharted₂⟩ := h.charted
  obtain ⟨-, honce, -⟩ := hcharted₂.times_le epoch
  refine ⟨h.deferred rfl hs, hstale, fun how hended => ?_, fun active hactive hepoch => ?_, honce,
    fun all cs' done' s' e₁' e₂' hcs hcs' h' hrewarded hrewarded' => ?_⟩
  · have hnow : performAll levels [] e₁ = .ok e₁ := rfl
    obtain ⟨-, -, hnone⟩ := hcharted₁.sealed hnow hended
    exact hstale (hnone p o)
  · rcases hcases with ⟨hnone, -⟩ | ⟨_, r, e, -, -, hpasses, hr⟩
    · exact absurd hepoch (hnone active hactive)
    · exact ⟨r, e, hpasses, hr⟩
  · obtain ⟨-, honce', -⟩ := h'.charted.2.times_le epoch
    -- What comes later finds the epoch rewarded, and would have to reward it once more.
    rcases h.trichotomy h' hcs hcs' with hsame | hlater | hearlier
    · exact hsame
    · have hle : e₂.journal.times epoch .rewarded ≤ e₁'.journal.times epoch .rewarded :=
        Ledger.Moves.times_le hlater epoch .rewarded
      omega
    · have hle : e₂'.journal.times epoch .rewarded ≤ e₁.journal.times epoch .rewarded :=
        Ledger.Moves.times_le hearlier epoch .rewarded
      omega

/-- A player starts `forest.wolves`, and an arrow hits. -/
def shot : List Command :=
  [.replacePackages (archery glade), .request ⟨"ann"⟩ (.startObjective ⟨"forest", "wolves"⟩),
    .dispatch (.projectileHit ⟨"ann"⟩ "arrow" .arrow glade)]

/-- The check of the arrow that has hit. -/
def landing : Appointment Task :=
  ⟨1, 0, .recheck ⟨"ann"⟩ ⟨"forest", "wolves"⟩ 0 (.landing glade (.constant 5) "arrow" glade)⟩

/-- Where the player has got with the objective when the arrow hits. -/
def shooting : Engine :=
  ({ bare with packages := archery glade }).begun ⟨"ann"⟩ ⟨"forest", "wolves"⟩ .null

/-- The check of the arrow waits. -/
def struck : Engine := { shooting with agenda := ⟨0, 1, [landing]⟩ }

theorem performAll_shot : performAll 1 shot bare = .ok struck := by
  have hids : shooting.progress.ids ⟨"ann"⟩ = [⟨"forest", "wolves"⟩] := by
    have hkeys : (shooting.progress.activeOf ⟨"ann"⟩).keys = [⟨"forest", "wolves"⟩] := rfl
    rw [Slots.ids, hkeys]
    exact List.mergeSort_singleton _
  have hdispatch : shooting.perform 1 (.dispatch (.projectileHit ⟨"ann"⟩ "arrow" .arrow glade)) =
      .ok ((), struck) := (Objectives.dispatch_run 0 rfl hids).trans rfl
  have hshooting : performAll 1 (shot.take 2) bare = .ok shooting := rfl
  exact performAll_append_singleton hshooting hdispatch

/-- The objective is cancelled and started again after the arrow has hit: its check is dropped. -/
theorem stale_checks_dropped_of_restart : ∃ e₁ e₂ active,
    CarriesOut 1 bare (shot ++ [.request ⟨"ann"⟩ (.cancelObjective ⟨"forest", "wolves"⟩),
      .request ⟨"ann"⟩ (.startObjective ⟨"forest", "wolves"⟩)]) [] landing e₁ e₂ ∧
    e₁.progress.find? ⟨"ann"⟩ ⟨"forest", "wolves"⟩ = some active ∧ active.epoch = 1 ∧ e₂ = e₁ := by
  obtain ⟨e, e₁, e₂, active, hrun, hagenda, hrun₁, hrun₂, hactive, hepoch⟩ : ∃ e e₁ e₂ active,
      performAll 1 (shot ++ [.request ⟨"ann"⟩ (.cancelObjective ⟨"forest", "wolves"⟩),
        .request ⟨"ann"⟩ (.startObjective ⟨"forest", "wolves"⟩)]) bare = .ok e ∧
      e.agenda = ⟨0, 1, [landing]⟩ ∧ e₁ = { e with agenda := e.agenda.advance.2 } ∧
      (landing.task.run (nested 1)).run e₁ = .ok ((), e₂) ∧
      e₁.progress.find? ⟨"ann"⟩ ⟨"forest", "wolves"⟩ = some active ∧ active.epoch = 1 := by
    rw [performAll_append, performAll_shot]
    exact ⟨_, _, _, _, rfl, rfl, rfl, rfl, rfl, rfl⟩
  have hdue : e.agenda.advance.1 = [landing] := by
    rw [hagenda]
    exact List.mergeSort_singleton _
  have hcarries : CarriesOut 1 bare _ [] landing e₁ e₂ := .intro hrun hdue (hrun₁ ▸ rfl) hrun₂
  obtain ⟨-, hstale, -⟩ := stale_checks_dropped hcarries rfl
  refine ⟨e₁, e₂, active, hcarries, hactive, hepoch, hstale fun now hnow => ?_⟩
  cases hactive.symm.trans hnow
  omega

end Engine

end Questbook
