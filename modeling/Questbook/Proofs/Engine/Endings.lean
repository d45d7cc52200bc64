/-
Questbook/Proofs/Engine/Endings.lean

How what is active ceases to be so.

What is not active under its epoch any more has ended since, and the journal tells how.  While
content runs it is cancelled or completed; a command that neither dispatches an event nor advances
the clock completes it on request only.  Outside of play it ends where a record of it is read back,
and where a reload finds no definition for it or one that cannot read its progress.

Main results: `Charted.exists_ended`, `Steps.ending_of_play` and `asked_of_perform`.
-/
import Questbook.Proofs.Engine.Untouched

namespace Questbook

namespace Engine

variable {levels : Nat} {start e e' : Engine} {cs : List Command} {p : PlayerId} {o : ObjectId}
  {a : Active} {x : JournalEntry} {how : Ending}

theorem Charted.issued (he : e.Charted) : e.Issued := by
  intro p o a hactive
  obtain ⟨φ, h⟩ := he a.epoch
  obtain ⟨stores, rfl⟩ := h.running_of_current (current_ledger hactive)
  have hborn : ¬ e.ledger.nextEpoch ≤ a.epoch := fun hnew => by cases h.unborn.2 hnew
  exact Nat.lt_of_not_le hborn

theorem mem_of_at {epoch : Nat} {φ : Ledger.Stage} (h : e.ledger.At epoch φ)
    (hepoch : x.epoch = epoch) : x ∈ e.journal ↔ x ∈ φ.course epoch := by
  have hcourse : e.journal.under epoch = φ.course epoch := h.course
  rw [← hcourse]
  simp [Journal.under, hepoch]

/-- What is not active under its epoch any more has ended since. -/
theorem Charted.exists_ended (he : e.Charted) (hmoves : Ledger.Moves e.ledger e'.ledger)
    (hactive : e.progress.find? p o = some a)
    (hover : ∀ b, e'.progress.find? p o = some b → b.epoch ≠ a.epoch) :
    ∃ how, ⟨p, o, a.epoch, .ended how⟩ ∉ e.journal ∧ ⟨p, o, a.epoch, .ended how⟩ ∈ e'.journal := by
  obtain ⟨φ, h⟩ := he a.epoch
  obtain ⟨stores, rfl⟩ := h.running_of_current (current_ledger hactive)
  obtain ⟨φ', h', hleads⟩ := hmoves.at h
  rcases Ledger.Stage.of_running_leads hleads with ⟨stores', rfl⟩ | ⟨stores', how, rfl⟩
  · have hcurrent : e'.ledger.current p o = some a.epoch := (h'.holder p o).2 rfl
    obtain ⟨b, hb, hepoch⟩ := Option.map_eq_some_iff.1 hcurrent
    exact absurd hepoch (hover b hb)
  · refine ⟨how, ?_, ?_⟩
    · rw [mem_of_at h rfl]
      simp [Ledger.Stage.course, Ledger.Stage.happenings]
    · rw [mem_of_at h' rfl]
      cases how <;> simp [Ledger.Stage.course, Ledger.Stage.happenings, Ledger.Stage.close,
        Ledger.Stage.owner]

/-- While content runs nothing ends but by being cancelled or completed. -/
theorem Steps.ending_of_play (h : Steps .play e e') (hnew : x ∉ e.journal) (hx : x ∈ e'.journal)
    (hhow : x.what = .ended how) : how = .cancelled ∨ how = .completed := by
  induction h with
  | refl => exact absurd hx hnew
  | @tail e₁ e₂ _ hstep ih =>
    by_cases hbefore : x ∈ e₁.journal
    · exact ih hbefore
    -- It is this step that has written it.
    cases hstep with
    | aside _ _ hjournal => exact absurd (hjournal ▸ hx) hbefore
    | prune => exact absurd hx hbefore
    | @start _ q id definition _ hinactive =>
      have hjournal := e₁.journal_enter q id definition.goal.initial e₁.clock
      rw [hinactive] at hjournal
      have hx : x ∈ (e₁.enter q id definition.goal.initial e₁.clock).2.journal := hx
      rw [hjournal] at hx
      rcases List.mem_cons.1 hx with rfl | hx
      · cases hhow
      · exact absurd hx hbefore
    | store =>
      rcases List.mem_cons.1 hx with rfl | hx
      · cases hhow
      · exact absurd hx hbefore
    | cancel =>
      rcases List.mem_cons.1 hx with rfl | hx
      · cases hhow
        exact .inl rfl
      · exact absurd hx hbefore
    | complete =>
      rcases List.mem_cons.1 hx with rfl | hx
      · cases hhow
      · rcases List.mem_cons.1 hx with rfl | hx
        · cases hhow
          exact .inr rfl
        · exact absurd hx hbefore

/-- A reload leaves alone what is defined by a goal that can read its progress. -/
theorem find?_of_reload {packages : Packages} {definition : Objective}
    {answer : (Command.replacePackages packages).Answer}
    (hstep : e.perform levels (.replacePackages packages) = .ok (answer, e'))
    (hdefined : packages.get .objective o = .ok definition)
    (haccepts : definition.goal.accepts a.data = true)
    (hactive : e.progress.find? p o = some a) : e'.progress.find? p o = some a := by
  have hkept (q : PlayerId) : KeptByReload q packages fun e => e.progress.find? p o = some a :=
    { drop := fun {e held id active err} he hfind hundefined => by
        rw [e.find?_ended _ _ _ _ _ _ hfind, if_neg, he]
        rintro ⟨rfl, rfl⟩
        cases hdefined.symm.trans hundefined
      renew := fun {e held id active definition'} he hfind hdefined' hunreadable => by
        rw [e.find?_renewed _ _ _ _ _ _ hfind, if_neg, he]
        rintro ⟨rfl, rfl⟩
        cases hdefined.symm.trans hdefined'
        cases he.symm.trans (e.progress.find?_of_findIn? _ _ _ hfind)
        cases haccepts.symm.trans hunreadable
      prune := fun {e} held he => (e.find?_pruned ..).trans he }
  have hkeeps : (Objectives.reconcile packages).Keeps (fun e => e.progress.find? p o = some a)
      fun _ => True := Objectives.reconcile_keeps hkept
  exact hkeeps.of_run (e := { e with packages }) hactive hstep

/-- What is read back from storage leaves all else alone. -/
theorem find?_of_restore {records : List ProgressRecord} {count : Nat}
    (hnone : ∀ r ∈ records, ¬(r.player = p ∧ r.objective = o))
    (hrun : (Objectives.restore records).run e = .ok (count, e')) :
    e'.progress.find? p o = e.progress.find? p o := by
  induction records generalizing e count with
  | nil =>
    cases hrun
    rfl
  | cons r rest ih =>
    rw [List.forall_mem_cons] at hnone
    obtain ⟨found, e₀, hfound, h⟩ := Act.exists_of_run_bind hrun
    obtain ⟨-, rfl⟩ := Act.objective_run hfound
    cases found with
    | error err => exact ih hnone.2 h
    | ok definition =>
      obtain ⟨_, e₁, henter, h⟩ := Act.exists_of_run_bind h
      obtain ⟨k, e₂, hrest, h⟩ := Act.exists_of_run_bind h
      cases h
      cases henter
      rw [ih hnone.2 hrest, find?_enter, if_neg hnone.1]

/-- A command that dispatches nothing and does not advance the clock completes what content asks
for, or what it asks for itself. -/
theorem asked_of_perform {A : Set Demand} {c : Command} {answer : c.Answer}
    (he : e.Authored A (fun _ => True) e.packages) (hK : e.packages.Within A true)
    (hmode : c.mode = .play) (htick : c ≠ .tick) (hdispatch : ∀ event, c ≠ .dispatch event)
    (hrequest : ∀ q r, c = .request q r → .request r ∈ A)
    (hstep : e.perform levels c = .ok (answer, e')) (hcompleted : x.what = .ended .completed)
    (hnew : x ∉ e.journal) (hx : x ∈ e'.journal) :
    .request (.completeObjective x.objective) ∈ A := by
  have hcontent (q : PlayerId) (hc : c.player? = some q) : OnRequest A e.packages e e' :=
    ((onRequest_kept hK q e).perform_keeps hc hdispatch (hrequest q)).of_run (.refl he) hstep
  cases c with
  | tick => exact absurd rfl htick
  | dispatch event => exact absurd rfl (hdispatch event)
  | restore | replacePackages => cases hmode
  | request q | check q | evaluate q | fire q | display q | value q =>
    exact ((hcontent q rfl).asked x hx hcompleted).resolve_left hnew
  | changeWorld | setClock =>
    cases hstep
    exact absurd hx hnew
  | remind ticks r =>
    obtain ⟨_, _, hget, h⟩ := Act.exists_of_run_bind hstep
    cases hget
    split at h
    · cases h
      exact absurd hx hnew
    · cases h

/-! ### Checks that wait -/

/-- A check that waits was put off under an epoch that has been given out by then. -/
theorem Deferred.epoch_lt {before after : List Command} {event : GameEvent} {e₀ : Engine}
    {epoch : Nat} {check : Recheck} (hcharted : start.Charted)
    (h : Deferred levels start cs before after event e₀ o epoch check) {e₁ : Engine}
    (hdispatch : e₀.perform levels (.dispatch event) = .ok ((), e₁)) :
    epoch < e₁.progress.nextEpoch := by
  obtain ⟨hturn, hdefined, hactive, -⟩ := h.puts
  obtain ⟨e₂, -, hsteps, hsteps₁, hsteps₂, -⟩ := hturn.exists_offer hdispatch
  have hissued := ((hcharted.of_moves (performAll_moves h.before)).of_moves hsteps.moves).issued
  exact (hissued _ _ _ (Slots.find?_of_findIn? _ _ _ _ hactive)).trans_le
    (hsteps₁.nextEpoch_le.trans hsteps₂.nextEpoch_le)

end Engine

end Questbook
