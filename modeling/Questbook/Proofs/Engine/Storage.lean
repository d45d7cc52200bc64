/-
Questbook/Proofs/Engine/Storage.lean

What is queued for the archive mirrors what is active.

A step of progress concerns one objective of one player.  It either leaves that objective and what
is queued for it alone, or it queues just the change that tells what the objective has become: such
a change is `Sets`, and the steps of play are all of that kind.  The one exception is a reload that
drops an objective, since nothing is queued for it, so that the archive keeps the record until the
objective is started again.

Main result: `queued_mirrors_progress`, on every run of an engine that has begun without progress
and never read any back.  Carried out on an empty archive, what is queued leaves the records of what
is active, and besides them only records that were lost to a reload.
-/
import Questbook.Proofs.Engine.Perform
import Questbook.Proofs.Progress.Keyed

namespace Questbook

/-- The change by which the archive learns what has become of an objective. -/
def RecordChange.telling (p : PlayerId) (o : ObjectId) : Option Active → RecordChange
  | some a => .upsert (a.record p o)
  | none => .delete p o

@[simp] theorem RecordChange.key_telling (p : PlayerId) (o : ObjectId) (now : Option Active) :
    (telling p o now).key = (p, o) := by
  cases now <;> rfl

namespace Engine

variable {e e' e'' : Engine} {p q : PlayerId} {o x : ObjectId}

/-! ### What is queued for an objective -/

/-- The changes of progress queued for the archive, oldest first. -/
def queued (e : Engine) : List RecordChange := e.drainOutbox.1

/-- The changes queued for one objective of a player. -/
def queuedFor (e : Engine) (p : PlayerId) (o : ObjectId) : List RecordChange :=
  e.queued.filter (·.key = (p, o))

/-- The latest change queued for one objective of a player. -/
def latest? (e : Engine) (p : PlayerId) (o : ObjectId) : Option RecordChange :=
  RecordChange.latest? (p, o) e.queued

theorem latest?_congr (h : e'.queuedFor p o = e.queuedFor p o) : e'.latest? p o = e.latest? p o :=
  congrArg List.getLast? h

/-! ### What a step does to an objective -/

/-- The objective and what is queued for it are as they were. -/
structure Untouched (e e' : Engine) (p : PlayerId) (o : ObjectId) : Prop where
  record : e'.record? p o = e.record? p o
  queued : e'.queuedFor p o = e.queuedFor p o

/-- The latest change queued for the objective tells what it is. -/
def Mirrored (e : Engine) (p : PlayerId) (o : ObjectId) : Prop :=
  match e.record? p o with
  | some r => e.latest? p o = some (.upsert r)
  | none => e.latest? p o = some (.delete p o)

/-- The objective was active, its definition is gone, and nothing has been queued. -/
structure Dropped (e e' : Engine) (p : PlayerId) (o : ObjectId) : Prop where
  undefined : ∃ err, e'.packages.get .objective o = .error err
  before : ∃ r, e.record? p o = some r
  after : e'.record? p o = none
  queued : e'.queuedFor p o = e.queuedFor p o

theorem Untouched.refl : Untouched e e p o := ⟨rfl, rfl⟩

theorem Untouched.trans (h : Untouched e e' p o) (h' : Untouched e' e'' p o) :
    Untouched e e'' p o :=
  ⟨h'.record.trans h.record, h'.queued.trans h.queued⟩

theorem Untouched.mirrored (h : Untouched e e' p o) (hm : Mirrored e p o) : Mirrored e' p o := by
  unfold Mirrored
  rw [h.record, latest?_congr h.queued]
  exact hm

/-- A change that does not reach the active objectives and queues nothing. -/
theorem untouched_of_find? (hprogress : e'.progress.find? p o = e.progress.find? p o)
    (houtbox : e'.outbox = e.outbox) : Untouched e e' p o := by
  refine ⟨?_, ?_⟩
  · simp only [record?, hprogress]
  · simp only [queuedFor, queued, drainOutbox, houtbox]

/-- A change of one objective that the archive is told of. -/
structure Sets (e e' : Engine) (p : PlayerId) (o : ObjectId) (now : Option Active) : Prop where
  progress : ∀ q x,
    e'.progress.find? q x = if p = q ∧ o = x then now else e.progress.find? q x
  outbox : e'.outbox = e.outbox.map (RecordChange.telling p o now :: ·)

theorem begun_sets (e : Engine) (p : PlayerId) (o : ObjectId) (data : Json) :
    Sets e (e.begun p o data) p o (some ⟨data, e.progress.nextEpoch, e.clock⟩) where
  progress q x := e.find?_enter p q o x data e.clock
  outbox := by
    change (e.enter p o data e.clock).2.outbox.map _ = _
    rw [outbox_enter]
    rfl

theorem stored_sets {held : Nat} {active : Active} (epoch : Nat) (data : Json)
    (h : e.progress.findIn? p held o = some active) :
    Sets e (e.stored p held o active epoch data) p o (some { active with data }) where
  progress q x := e.find?_stored p q held o x data epoch h
  outbox := rfl

theorem removed_sets {held : Nat} {active : Active} (how : Ending)
    (h : e.progress.findIn? p held o = some active) :
    Sets e (e.removed p held o active how) p o none where
  progress q x := e.find?_ended p q held o x how h
  outbox := rfl

theorem completed_sets {held : Nat} {active : Active}
    (h : e.progress.findIn? p held o = some active) :
    Sets e (e.completed p held o active) p o none :=
  ⟨(removed_sets .completed h).progress, (removed_sets .completed h).outbox⟩

theorem renewed_sets {held : Nat} {active : Active} (data : Json)
    (h : e.progress.findIn? p held o = some active) :
    Sets e (e.renewed p held o active data) p o
      (some { active with data, epoch := e.progress.nextEpoch }) where
  progress q x := e.find?_renewed p q held o x data h
  outbox := rfl

/-- What is queued after a change that the archive is told of. -/
theorem Sets.queued_eq {now : Option Active} (h : Sets e e' p o now) (harchive : e.outbox.isSome) :
    e'.queued = e.queued ++ [RecordChange.telling p o now] := by
  obtain ⟨ops, hops⟩ := Option.isSome_iff_exists.1 harchive
  simp [queued, drainOutbox, h.outbox, hops]

/-- The objective that is changed is mirrored, and no other one is touched. -/
theorem Sets.effect {now : Option Active} (h : Sets e e' p o now) (harchive : e.outbox.isSome)
    (q : PlayerId) (x : ObjectId) : Untouched e e' q x ∨ Mirrored e' q x ∧ o = x := by
  have hqueued := h.queued_eq harchive
  by_cases hkey : p = q ∧ o = x
  · obtain ⟨rfl, rfl⟩ := hkey
    refine .inr ⟨?_, rfl⟩
    have hlatest : e'.latest? p o = some (RecordChange.telling p o now) := by
      simp [latest?, hqueued, RecordChange.latest?_append_singleton]
    have hrecord : e'.record? p o = now.map (·.record p o) := by simp [record?, h.progress]
    unfold Mirrored
    rw [hlatest, hrecord]
    cases now <;> rfl
  · refine .inl ⟨?_, ?_⟩
    · simp [record?, h.progress, hkey]
    · have hne : ¬ (p, o) = (q, x) := by simpa using hkey
      simp [queuedFor, hqueued, hne]

/-! ### What a chain of steps does to an objective -/

theorem Sets.archived {now : Option Active} (h : Sets e e' p o now) :
    e'.outbox.isSome = e.outbox.isSome := by
  rw [h.outbox, Option.isSome_map]

theorem Step.archived {mode : Mode} (h : Step mode e e') : e'.outbox.isSome = e.outbox.isSome := by
  cases h with
  | aside _ houtbox => rw [houtbox]
  | prune | drop => rfl
  | start => exact (begun_sets e _ _ _).archived
  | store hactive data => exact (stored_sets _ data hactive).archived
  | cancel hactive => exact (removed_sets _ hactive).archived
  | complete hactive => exact (completed_sets hactive).archived
  | renew hactive => exact (renewed_sets _ hactive).archived
  | restore => rw [outbox_enter]

theorem Steps.archived {mode : Mode} (h : Steps mode e e') :
    e'.outbox.isSome = e.outbox.isSome := by
  induction h with
  | refl => rfl
  | tail _ hstep ih => exact hstep.archived.trans ih

/-- While content runs, every objective that is touched is mirrored. -/
theorem Step.effect_of_play (h : Step .play e e') (harchive : e.outbox.isSome) (p : PlayerId)
    (o : ObjectId) : Untouched e e' p o ∨ Mirrored e' p o := by
  cases h with
  | aside hprogress houtbox => exact .inl (untouched_of_find? (by rw [hprogress]) houtbox)
  | prune => exact .inl (untouched_of_find? (e.find?_pruned _ p _ o) rfl)
  | start => exact ((begun_sets e _ _ _).effect harchive p o).imp_right And.left
  | store hactive data =>
    exact ((stored_sets _ data hactive).effect harchive p o).imp_right And.left
  | cancel hactive => exact ((removed_sets _ hactive).effect harchive p o).imp_right And.left
  | complete hactive => exact ((completed_sets hactive).effect harchive p o).imp_right And.left

theorem Steps.effect_of_play (h : Steps .play e e') (harchive : e.outbox.isSome) (p : PlayerId)
    (o : ObjectId) : Untouched e e' p o ∨ Mirrored e' p o := by
  induction h with
  | refl => exact .inl .refl
  | tail hsteps hstep ih =>
    rcases hstep.effect_of_play (Steps.archived hsteps ▸ harchive) p o with huntouched | hmirrored
    · exact ih.imp (·.trans huntouched) huntouched.mirrored
    · exact .inr hmirrored

/-- A step of a reload begins an objective anew that has a definition, or drops one that has
none. -/
theorem Step.effect_of_reload (h : Step .reload e e') (harchive : e.outbox.isSome) (p : PlayerId)
    (o : ObjectId) : Untouched e e' p o ∨
      (Mirrored e' p o ∧ ∃ definition, e'.packages.get .objective o = .ok definition) ∨
      Dropped e e' p o := by
  cases h with
  | aside hprogress houtbox => exact .inl (untouched_of_find? (by rw [hprogress]) houtbox)
  | prune => exact .inl (untouched_of_find? (e.find?_pruned _ p _ o) rfl)
  | @drop _ q held x active err hactive hundefined =>
    -- The one step that changes progress and queues nothing.
    have hprogress := e.find?_ended q p held x o .dropped hactive
    by_cases hkey : q = p ∧ x = o
    · obtain ⟨rfl, rfl⟩ := hkey
      have hbefore : e.progress.find? q x = some active := e.progress.find?_of_findIn? _ _ _ hactive
      refine .inr (.inr ⟨⟨err, hundefined⟩, ⟨active.record q x, ?_⟩, ?_, rfl⟩)
      · simp [record?, hbefore]
      · simp [record?, hprogress]
    · rw [if_neg hkey] at hprogress
      exact .inl (untouched_of_find? hprogress rfl)
  | @renew _ q held x active definition hactive hdefined =>
    rcases (renewed_sets _ hactive).effect harchive p o with huntouched | ⟨hmirrored, rfl⟩
    · exact .inl huntouched
    · exact .inr (.inl ⟨hmirrored, definition, hdefined⟩)

/-- The packages stay the same during a reload, so that what begins anew is not dropped and what is
dropped is not active again. -/
theorem Steps.effect_of_reload (h : Steps .reload e e') (harchive : e.outbox.isSome) (p : PlayerId)
    (o : ObjectId) : Untouched e e' p o ∨
      (Mirrored e' p o ∧ ∃ definition, e'.packages.get .objective o = .ok definition) ∨
      Dropped e e' p o := by
  induction h with
  | refl => exact .inl .refl
  | tail hsteps hstep ih =>
    have hpackages := hstep.packages_eq
    rcases hstep.effect_of_reload (Steps.archived hsteps ▸ harchive) p o with
      huntouched | hmirrored | hdropped
    · rcases ih with hbefore | ⟨hmirrored, hdefined⟩ | hdropped
      · exact .inl (hbefore.trans huntouched)
      · exact .inr (.inl ⟨huntouched.mirrored hmirrored, hpackages ▸ hdefined⟩)
      · exact .inr (.inr ⟨hpackages ▸ hdropped.undefined, hdropped.before,
          huntouched.record.trans hdropped.after, huntouched.queued.trans hdropped.queued⟩)
    · exact .inr (.inl hmirrored)
    · rcases ih with hbefore | ⟨-, definition, hdefined⟩ | hbefore
      · exact .inr (.inr ⟨hdropped.undefined, hbefore.record ▸ hdropped.before, hdropped.after,
          hdropped.queued.trans hbefore.queued⟩)
      · -- It has just begun anew, so that the packages define it and it cannot be dropped.
        obtain ⟨err, hundefined⟩ := hdropped.undefined
        rw [hpackages, hdefined] at hundefined
        cases hundefined
      · obtain ⟨r, hr⟩ := hdropped.before
        rw [hbefore.after] at hr
        cases hr

/-! ### Runs -/

variable {levels : Nat} {cs : List Command} {c : Command} {e₀ : Engine}

/-- A record that a reload in the course of a run has left in the archive only: the objective was
active with this record, the new packages had no definition of it, and since then it has not been
active and nothing has been queued for it. -/
def LostToReload (levels : Nat) (e₀ : Engine) (cs : List Command) (e : Engine) (p : PlayerId)
    (o : ObjectId) (r : ProgressRecord) : Prop :=
  ∃ before packages after e₁ e₂ err,
    cs = before ++ .replacePackages packages :: after ∧
    performAll levels before e₀ = .ok e₁ ∧
    performAll levels [.replacePackages packages] e₁ = .ok e₂ ∧
    performAll levels after e₂ = .ok e ∧
    packages.get .objective o = .error err ∧
    e₁.record? p o = some r ∧
    (∀ done, done <+: after → ∀ e', performAll levels done e₂ = .ok e' → e'.record? p o = none) ∧
    e.queuedFor p o = e₁.queuedFor p o

/-- What is lost to a reload stays so until the objective is touched. -/
theorem LostToReload.concat {r : ProgressRecord} (h : LostToReload levels e₀ cs e p o r)
    (huntouched : Untouched e e' p o) (hlast : performAll levels [c] e = .ok e') :
    LostToReload levels e₀ (cs ++ [c]) e' p o r := by
  obtain ⟨before, packages, after, e₁, e₂, err, rfl, hbefore, hreload, hafter, hundefined, hrecord,
    hinactive, hqueued⟩ := h
  have hafter' : performAll levels (after ++ [c]) e₂ = .ok e' := by
    rw [performAll_append, hafter]
    exact hlast
  have he : e.record? p o = none := hinactive after List.prefix_rfl e hafter
  refine ⟨before, packages, after ++ [c], e₁, e₂, err, by simp, hbefore, hreload, hafter',
    hundefined, hrecord, fun done hdone e'' hrun => ?_, huntouched.queued.trans hqueued⟩
  rcases List.prefix_concat_iff.1 hdone with rfl | hdone
  · rw [hafter'] at hrun
    cases hrun
    exact huntouched.record.trans he
  · exact hinactive done hdone e'' hrun

/-- What has been queued for an objective accounts for what it is. -/
def Accounted (levels : Nat) (e₀ : Engine) (cs : List Command) (e : Engine) (p : PlayerId)
    (o : ObjectId) : Prop :=
  Mirrored e p o ∨ (e.record? p o = none ∧
    (e.queuedFor p o = [] ∨
      ∃ r, e.latest? p o = some (.upsert r) ∧ LostToReload levels e₀ cs e p o r))

theorem Accounted.concat (h : Accounted levels e₀ cs e p o) (huntouched : Untouched e e' p o)
    (hlast : performAll levels [c] e = .ok e') : Accounted levels e₀ (cs ++ [c]) e' p o := by
  rcases h with hmirrored | ⟨hrecord, hnothing | ⟨r, hlatest, hlost⟩⟩
  · exact .inl (huntouched.mirrored hmirrored)
  · exact .inr ⟨huntouched.record.trans hrecord, .inl (huntouched.queued.trans hnothing)⟩
  · exact .inr ⟨huntouched.record.trans hrecord,
      .inr ⟨r, (latest?_congr huntouched.queued).trans hlatest, hlost.concat huntouched hlast⟩⟩

/-- An objective that a reload drops is lost to it. -/
theorem Dropped.lost {packages : Packages} (h : Dropped { e with packages } e' p o)
    (hpackages : e'.packages = packages) (hbefore : performAll levels cs e₀ = .ok e)
    (hmirrored : Mirrored e p o)
    (hreload : performAll levels [.replacePackages packages] e = .ok e') :
    ∃ r, e'.latest? p o = some (.upsert r) ∧
      LostToReload levels e₀ (cs ++ [.replacePackages packages]) e' p o r := by
  obtain ⟨err, hundefined⟩ := h.undefined
  obtain ⟨r, hr⟩ := h.before
  have hrecord : e.record? p o = some r := hr
  have hqueued : e'.queuedFor p o = e.queuedFor p o := h.queued
  refine ⟨r, ?_, cs, packages, [], e, e', err, by simp, hbefore, hreload, rfl,
    hpackages ▸ hundefined, hrecord, fun done hdone e'' hrun => ?_, hqueued⟩
  · rw [latest?_congr hqueued]
    simpa [Mirrored, hrecord] using hmirrored
  · obtain rfl := List.prefix_nil.1 hdone
    cases hrun
    exact h.after

/-- Every objective is accounted for after every run in which no progress is read back. -/
theorem accounted_of_performAll (hlive : ∀ records, .restore records ∉ cs)
    (hrun : performAll levels cs e₀ = .ok e) (harchive : e₀.outbox.isSome)
    (hinactive : ∀ p o, e₀.record? p o = none) (hempty : ∀ p o, e₀.queuedFor p o = []) :
    e.outbox.isSome ∧ ∀ p o, Accounted levels e₀ cs e p o := by
  induction cs using List.reverseRecOn generalizing e with
  | nil =>
    cases hrun
    exact ⟨harchive, fun p o => .inr ⟨hinactive p o, .inl (hempty p o)⟩⟩
  | append_singleton cs c ih =>
    obtain ⟨e', answer, hbefore, hperform⟩ := performAll_concat hrun
    have hlast : performAll levels [c] e' = .ok e := by
      simp [performAll, hperform, bind, Except.bind]
    obtain ⟨harchive', haccounted⟩ :=
      ih (fun records h => hlive records (List.mem_append_left _ h)) hbefore
    have hsteps := perform_steps hperform
    rcases c.mode_cases with ⟨records, rfl⟩ | ⟨packages, rfl⟩ | ⟨hmode, hsetting⟩
    · exact absurd (List.mem_append_right _ List.mem_cons_self) (hlive records)
    · refine ⟨(Steps.archived hsteps).trans harchive', fun p o => ?_⟩
      rcases Steps.effect_of_reload hsteps harchive' p o with
        huntouched | ⟨hmirrored, -⟩ | hdropped
      · exact (haccounted p o).concat ⟨huntouched.record, huntouched.queued⟩ hlast
      · exact .inl hmirrored
      · -- What is dropped was active, and what is active is mirrored: its record is lost.
        obtain ⟨r, hr⟩ := hdropped.before
        have hmirrored : Mirrored e' p o := by
          rcases haccounted p o with hmirrored | ⟨hrecord, -⟩
          · exact hmirrored
          · cases hrecord.symm.trans hr
        exact .inr ⟨hdropped.after,
          .inr (hdropped.lost (Steps.packages_eq hsteps) hbefore hmirrored hlast)⟩
    · rw [hmode, hsetting] at hsteps
      refine ⟨(Steps.archived hsteps).trans harchive', fun p o => ?_⟩
      rcases Steps.effect_of_play hsteps harchive' p o with huntouched | hmirrored
      · exact (haccounted p o).concat huntouched hlast
      · exact .inl hmirrored

/-- What an archive without records comes to hold by the changes that are queued. -/
def replayed (e : Engine) : MemoryArchive := Archive.apply e.queued MemoryArchive.empty

theorem get?_replayed (e : Engine) (p : PlayerId) (o : ObjectId) :
    e.replayed.get? p o = (e.latest? p o).bind RecordChange.record? := by
  have h := KeyedArchive.recordAt_apply e.queued MemoryArchive.empty (p, o)
  rw [show e.replayed.get? p o = KeyedArchive.recordAt e.replayed (p, o) from rfl, replayed, h]
  unfold latest?
  cases RecordChange.latest? (p, o) e.queued <;> rfl

theorem latest?_of_queuedFor_eq_nil (h : e.queuedFor p o = []) : e.latest? p o = none :=
  congrArg List.getLast? h

/-- **The archive is told of all progress.**  After every run in which no progress is read back, the
latest change queued for an objective that is active is its record; for one that is not active
nothing was ever queued, or it is told to be gone, or its record was lost to a reload.  Carried out
on an empty archive, the changes leave every active record, and besides these no others than those
that were lost. -/
theorem queued_mirrors_progress {registry : Registry} {integrations : Integrations} {world : World}
    {screen : String} {clock : Calendar.Timestamp} {dice : Dice}
    (hlive : ∀ records, .restore records ∉ cs)
    (hrun : performAll levels cs (fresh registry integrations world true screen clock dice) =
      .ok e) :
    (∀ p o r, e.record? p o = some r → e.latest? p o = some (.upsert r)) ∧
    (∀ p o, e.record? p o = none →
      e.queuedFor p o = [] ∨ e.latest? p o = some (.delete p o) ∨
      ∃ r, e.latest? p o = some (.upsert r) ∧
        LostToReload levels (fresh registry integrations world true screen clock dice) cs e p o r) ∧
    (∀ p o r, e.record? p o = some r → e.replayed.get? p o = some r) ∧
    (∀ p o, e.replayed.get? p o ≠ e.record? p o →
      ∃ r, e.record? p o = none ∧ e.replayed.get? p o = some r ∧
        LostToReload levels (fresh registry integrations world true screen clock dice) cs e p o
          r) := by
  have haccounted := (accounted_of_performAll hlive hrun rfl (fun _ _ => rfl) fun _ _ => rfl).2
  have hactive : ∀ p o r, e.record? p o = some r → e.latest? p o = some (.upsert r) := by
    intro p o r hr
    rcases haccounted p o with hmirrored | ⟨hrecord, -⟩
    · simpa [Mirrored, hr] using hmirrored
    · cases hrecord.symm.trans hr
  have hinactive : ∀ p o, e.record? p o = none →
      e.queuedFor p o = [] ∨ e.latest? p o = some (.delete p o) ∨
      ∃ r, e.latest? p o = some (.upsert r) ∧
        LostToReload levels (fresh registry integrations world true screen clock dice) cs e p o
          r := by
    intro p o hr
    rcases haccounted p o with hmirrored | ⟨-, hnothing | hlost⟩
    · exact .inr (.inl (by simpa [Mirrored, hr] using hmirrored))
    · exact .inl hnothing
    · exact .inr (.inr hlost)
  have hkept : ∀ p o r, e.record? p o = some r → e.replayed.get? p o = some r := by
    intro p o r hr
    rw [get?_replayed, hactive p o r hr]
    rfl
  refine ⟨hactive, hinactive, hkept, fun p o hdiffers => ?_⟩
  cases hr : e.record? p o with
  | some r => exact absurd (hkept p o r hr) (hr ▸ hdiffers)
  | none =>
    rw [hr, get?_replayed] at hdiffers
    rcases hinactive p o hr with hnothing | hdeleted | ⟨r, hlatest, hlost⟩
    · simp [latest?_of_queuedFor_eq_nil hnothing] at hdiffers
    · simp [hdeleted, RecordChange.record?] at hdiffers
    · refine ⟨r, rfl, ?_, hlost⟩
      rw [get?_replayed, hlatest]
      rfl

/-- A run that starts an objective and then takes its package away. -/
def abandoned : List Command :=
  [.replacePackages wolves, .request ⟨"ann"⟩ (.startObjective ⟨"forest", "wolves"⟩),
    .replacePackages Packages.empty]

/-- The record of an objective whose package is taken away is lost. -/
theorem queued_mirrors_progress_of_abandoned :
    ∃ e r, performAll 1 abandoned bare = .ok e ∧
      e.replayed.get? ⟨"ann"⟩ ⟨"forest", "wolves"⟩ = some r ∧
      LostToReload 1 bare abandoned e ⟨"ann"⟩ ⟨"forest", "wolves"⟩ r := by
  obtain ⟨e, hrun, hrecord, hkept⟩ : ∃ e, performAll 1 abandoned bare = .ok e ∧
      e.record? ⟨"ann"⟩ ⟨"forest", "wolves"⟩ = none ∧
      (e.replayed.get? ⟨"ann"⟩ ⟨"forest", "wolves"⟩).isSome = true := ⟨_, rfl, rfl, rfl⟩
  have hlive : ∀ records, .restore records ∉ abandoned := by
    intro records h
    simp [abandoned] at h
  obtain ⟨-, -, -, hlost⟩ := queued_mirrors_progress hlive hrun
  have hdiffers : e.replayed.get? ⟨"ann"⟩ ⟨"forest", "wolves"⟩ ≠
      e.record? ⟨"ann"⟩ ⟨"forest", "wolves"⟩ := by
    intro h
    rw [h, hrecord] at hkept
    cases hkept
  obtain ⟨r, -, hr, hlost⟩ := hlost _ _ hdiffers
  exact ⟨e, r, hrun, hr, hlost⟩

end Engine

end Questbook
