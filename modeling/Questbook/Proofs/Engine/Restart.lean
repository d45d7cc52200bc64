/-
Questbook/Proofs/Engine/Restart.lean

A restart is transparent.

Three things are true of an engine that has begun without progress, and each of them is needed to
find its progress again: storage is told of all progress, the packages in force can read it, and
whoever has a slot has something active.  So the archive comes to hold the records of what is active
and no others, and what a new engine reads back from it is entered as it stands.

Main result: `restart_transparent`.
-/
import Mathlib.Data.List.Nodup
import Questbook.Proofs.Engine.Epochs
import Questbook.Proofs.Engine.Readable
import Questbook.Proofs.Engine.Storage
import Questbook.Proofs.Engine.Tidy
import Questbook.Proofs.Progress.Delivery

namespace Questbook

/-! ### What is active, by key -/

namespace Slots

variable {s s' : Slots} {p : PlayerId} {o : ObjectId}

/-- The keys of all that is active. -/
def keys (s : Slots) : List ProgressKey :=
  s.slots.entries.flatMap fun slot => slot.2.active.keys.map (slot.1, ·)

theorem mem_keys_iff : (p, o) ∈ s.keys ↔ s.isActive p o = true := by
  unfold keys isActive find? activeOf
  rw [List.mem_flatMap]
  constructor
  · rintro ⟨⟨q, slot⟩, hslot, hkey⟩
    obtain ⟨x, hx, heq⟩ := List.mem_map.1 hkey
    cases heq
    rw [Table.find?_of_mem_entries hslot]
    exact Table.contains_iff_mem_keys.2 hx
  · intro h
    cases hslot : s.slots.find? p with
    | none =>
      rw [hslot] at h
      cases h
    | some slot =>
      rw [hslot] at h
      have ho : o ∈ slot.active.keys := Table.contains_iff_mem_keys.1 h
      exact ⟨(p, slot), Table.mem_entries_of_find? hslot, List.mem_map.2 ⟨o, ho, rfl⟩⟩

theorem nodup_keys (s : Slots) : s.keys.Nodup := by
  refine List.nodup_flatMap.2 ⟨fun slot _ => ?_, ?_⟩
  · exact slot.2.active.distinct.map (Prod.mk_right_injective _)
  · refine (List.pairwise_map.1 s.slots.distinct).imp fun {a b} hne => ?_
    intro k ha hb
    obtain ⟨x, -, rfl⟩ := List.mem_map.1 ha
    obtain ⟨y, -, heq⟩ := List.mem_map.1 hb
    exact hne (Prod.ext_iff.1 heq).1.symm

theorem Tidy.mem_keys_iff (h : s.Tidy) : p ∈ s.slots.keys ↔ ∃ o, s.isActive p o = true := by
  unfold isActive
  constructor
  · intro hp
    obtain ⟨slot, hslot⟩ := Option.isSome_iff_exists.1 (Table.contains_iff_mem_keys.2 hp)
    obtain ⟨o, ho⟩ : ∃ o, o ∈ slot.active.keys := by
      refine List.exists_mem_of_ne_nil _ fun hnil => ?_
      have hempty : slot.active.isEmpty = true := List.isEmpty_iff.2 (List.map_eq_nil_iff.1 hnil)
      exact h p slot hslot hempty
    refine ⟨o, ?_⟩
    rw [find?, activeOf, hslot]
    exact Table.contains_iff_mem_keys.2 ho
  · rintro ⟨o, ho⟩
    obtain ⟨a, ha⟩ := Option.isSome_iff_exists.1 ho
    exact mem_keys_of_find? s p o ha

/-- If no slot is empty, as many players are tracked as have something active. -/
theorem tracked_eq (hs : s.Tidy) (hs' : s'.Tidy) (h : ∀ p o, s.isActive p o = s'.isActive p o) :
    s.tracked = s'.tracked := by
  have hperm : s.slots.keys.Perm s'.slots.keys := by
    refine (List.perm_ext_iff_of_nodup s.slots.distinct s'.slots.distinct).2 fun p => ?_
    have hkeys : p ∈ s.slots.keys ↔ p ∈ s'.slots.keys := by
      simp only [hs.mem_keys_iff, hs'.mem_keys_iff, h]
    exact hkeys
  simpa [tracked, Table.size, Table.keys] using hperm.length_eq

end Slots

namespace Engine

variable {e e' : Engine} {p : PlayerId} {o : ObjectId} {records : List ProgressRecord}

/-! ### What is read back -/

/-- The engine with records entered as they stand. -/
def reentered (e : Engine) (records : List ProgressRecord) : Engine :=
  records.foldl (fun e r => (e.enter r.player r.objective r.data r.startedAt).2) e

/-- Records that can be read are all entered as they stand. -/
theorem restore_run (h : ∀ r ∈ records, ∃ definition : Objective,
    e.packages.get .objective r.objective = .ok definition ∧
      definition.goal.accepts r.data = true) :
    (Objectives.restore records).run e = .ok (records.length, e.reentered records) := by
  induction records generalizing e with
  | nil => rfl
  | cons r rest ih =>
    rw [List.forall_mem_cons] at h
    obtain ⟨⟨definition, hdefined, hreadable⟩, hrest⟩ := h
    have hnext := ih (e := (e.enter r.player r.objective r.data r.startedAt).2)
      (by simpa only [packages_enter] using hrest)
    have hobjective : (Act.objective r.objective).run e = .ok (.ok definition, e) :=
      congrArg (fun found => Except.ok (found, e)) hdefined
    rw [Objectives.restore, Act.run_bind_of_run hobjective]
    simp only [hreadable, if_true]
    rw [Act.run_bind_of_run rfl, Act.run_bind_of_run hnext]
    rfl

theorem record?_enter (q : PlayerId) (x : ObjectId) (r : ProgressRecord) :
    (e.enter r.player r.objective r.data r.startedAt).2.record? q x =
      if r.key = (q, x) then some r else e.record? q x := by
  unfold record?
  rw [find?_enter]
  by_cases hkey : r.player = q ∧ r.objective = x
  · obtain ⟨rfl, rfl⟩ := hkey
    simp [ProgressRecord.key, Active.record]
  · simp [ProgressRecord.key, hkey]

/-- Records that are active already are left as they are. -/
theorem record?_reentered_of_active (h : ∀ r ∈ records, e.record? r.player r.objective = some r) :
    (e.reentered records).record? p o = e.record? p o := by
  induction records generalizing e with
  | nil => rfl
  | cons r rest ih =>
    rw [List.forall_mem_cons] at h
    have hsame : ∀ q x, (e.enter r.player r.objective r.data r.startedAt).2.record? q x =
        e.record? q x := by
      intro q x
      rw [record?_enter]
      split
      · rename_i hkey
        cases hkey
        exact h.1.symm
      · rfl
    rw [reentered, List.foldl_cons, ← reentered, ih (fun r hr => (hsame _ _).trans (h.2 r hr)),
      hsame]

/-- A record is found after all have been entered, if it is the only one with its key. -/
theorem record?_reentered (hdistinct : (records.map (·.key)).Nodup) (k : ProgressKey) :
    (e.reentered records).record? k.1 k.2 =
      (records.find? (·.key = k)).or (e.record? k.1 k.2) := by
  induction records generalizing e with
  | nil => rfl
  | cons r rest ih =>
    rw [List.map_cons, List.nodup_cons] at hdistinct
    rw [reentered, List.foldl_cons, ← reentered, ih hdistinct.2, record?_enter, List.find?_cons]
    by_cases hkey : r.key = k
    · subst hkey
      have hnone : rest.find? (·.key = r.key) = none := by
        simpa using fun x hx hkey => hdistinct.1 (List.mem_map.2 ⟨x, hx, hkey⟩)
      simp [hnone]
    · simp [hkey]

/-- Entering records touches nothing but progress and the journal. -/
theorem reentered_eq (e : Engine) (records : List ProgressRecord) : e.reentered records =
    { e with
      progress := (e.reentered records).progress
      journal := (e.reentered records).journal } := by
  induction records generalizing e with
  | nil => rfl
  | cons r rest ih =>
    let e₁ := (e.enter r.player r.objective r.data r.startedAt).2
    have henter : e₁ = { e with progress := e₁.progress, journal := e₁.journal } := by
      simp only [e₁, enter, mark]
      split <;> rfl
    exact (ih e₁).trans (congrArg (fun x : Engine =>
      { x with
        progress := (e₁.reentered rest).progress
        journal := (e₁.reentered rest).journal }) henter)

theorem Readable.of_record? {r : ProgressRecord} (h : e.Readable)
    (hr : e.record? p o = some r) : ∃ definition : Objective,
      e.packages.get .objective r.objective = .ok definition ∧
        definition.goal.accepts r.data = true := by
  obtain ⟨a, ha, rfl⟩ := Option.map_eq_some_iff.1 hr
  exact h p o a ha

theorem isActive_eq_isSome (e : Engine) (p : PlayerId) (o : ObjectId) :
    e.progress.isActive p o = (e.record? p o).isSome := by
  rw [record?, Option.isSome_map, Slots.isActive]

theorem key_of_record? {r : ProgressRecord} (h : e.record? p o = some r) : r.key = (p, o) := by
  obtain ⟨a, -, rfl⟩ := Option.map_eq_some_iff.1 h
  rfl

end Engine

namespace Engine

variable {levels : Nat} {cs : List Command} {e e' e₀ : Engine} {p : PlayerId} {o : ObjectId}

/-! ### What storage is told -/

/-- Storage is told of an objective, or has never heard of it. -/
def Told (e : Engine) (p : PlayerId) (o : ObjectId) : Prop :=
  Mirrored e p o ∨ (e.record? p o = none ∧ e.queuedFor p o = [])

theorem Untouched.told (h : Untouched e e' p o) (ht : e.Told p o) : e'.Told p o :=
  ht.imp h.mirrored fun ⟨hrecord, hnothing⟩ => ⟨h.record.trans hrecord, h.queued.trans hnothing⟩

/-- Every reload of a run keeps what is active then, and what is read back is active already. -/
structure Undisturbed (levels : Nat) (e₀ : Engine) (cs : List Command) : Prop where
  kept : ∀ before packages after e, cs = before ++ .replacePackages packages :: after →
    performAll levels before e₀ = .ok e → ∀ p o r, e.record? p o = some r →
      ∃ definition : Objective, packages.get .objective o = .ok definition
  reread : ∀ before records after e, cs = before ++ .restore records :: after →
    performAll levels before e₀ = .ok e → ∀ r ∈ records, e.record? r.player r.objective = some r

theorem Undisturbed.of_append {before after : List Command}
    (h : Undisturbed levels e₀ (before ++ after)) : Undisturbed levels e₀ before where
  kept b packages a e hb := h.kept b packages (a ++ after) e (by simp [hb])
  reread b records a e hb := h.reread b records (a ++ after) e (by simp [hb])

theorem told_of_performAll (hcalm : Undisturbed levels e₀ cs)
    (hlawful : ∀ packages, .replacePackages packages ∈ cs → packages.Lawful)
    (hrun : performAll levels cs e₀ = .ok e) (hlawful₀ : e₀.packages.Lawful)
    (hreadable₀ : e₀.Readable) (harchive : e₀.outbox.isSome) (htold : ∀ p o, e₀.Told p o) :
    e.outbox.isSome ∧ ∀ p o, e.Told p o := by
  induction cs using List.reverseRecOn generalizing e with
  | nil =>
    cases hrun
    exact ⟨harchive, htold⟩
  | append_singleton cs c ih =>
    obtain ⟨e₁, answer, hbefore, hlast⟩ := performAll_concat hrun
    have hlawful₁ := fun packages h => hlawful packages (List.mem_append_left _ h)
    obtain ⟨harchive₁, htold₁⟩ := ih hcalm.of_append hlawful₁ hbefore
    have hsteps := perform_steps hlast
    rcases c.mode_cases with ⟨records, rfl⟩ | ⟨packages, rfl⟩ | ⟨hmode, hsetting⟩
    · -- What is read back is what has been queued.
      refine ⟨(Steps.archived hsteps).trans harchive₁, fun p o => ?_⟩
      obtain ⟨-, hreadable⟩ := readable_of_performAll hlawful₁ hbefore hlawful₀ hreadable₀
      have hactive := hcalm.reread cs records [] e₁ rfl hbefore
      have hrestore := restore_run fun r hr => Readable.of_record? hreadable (hactive r hr)
      cases hrestore.symm.trans hlast
      have hsame := reentered_eq e₁ records
      exact (Untouched.mk (record?_reentered_of_active hactive) (by rw [hsame]; rfl)).told
        (htold₁ p o)
    · -- Nothing that is active is dropped by this reload.
      refine ⟨(Steps.archived hsteps).trans harchive₁, fun p o => ?_⟩
      rcases Steps.effect_of_reload hsteps harchive₁ p o with
        huntouched | ⟨hmirrored, -⟩ | hdropped
      · exact Untouched.told (e := e₁) ⟨huntouched.record, huntouched.queued⟩ (htold₁ p o)
      · exact .inl hmirrored
      · obtain ⟨r, hr⟩ := hdropped.before
        obtain ⟨definition, hdefined⟩ := hcalm.kept cs packages [] e₁ rfl hbefore p o r hr
        obtain ⟨err, hundefined⟩ := hdropped.undefined
        rw [show e.packages = packages from Steps.packages_eq hsteps, hdefined] at hundefined
        cases hundefined
    · rw [hmode, hsetting] at hsteps
      refine ⟨(Steps.archived hsteps).trans harchive₁, fun p o => ?_⟩
      rcases Steps.effect_of_play hsteps harchive₁ p o with huntouched | hmirrored
      · exact huntouched.told (htold₁ p o)
      · exact .inl hmirrored

/-! ### Restarts -/

/-- What a new engine reads back from an archive that has the records of what is active. -/
theorem restored_from_archive (levels : Nat) {s : MemoryArchive} (hreadable : e.Readable)
    (htidy : e.progress.Tidy) (harchive : ∀ p o, s.get? p o = e.record? p o)
    (hpackages : e₀.packages = e.packages) (hempty : e₀.progress = Slots.empty) :
    ∃ e', e₀.perform levels (.restore (Archive.load s)) = .ok (e.progress.keys.length, e') ∧
      (∀ p o, e'.record? p o = e.record? p o) ∧ e'.progress.tracked = e.progress.tracked ∧
      e' = { e₀ with progress := e'.progress, journal := e'.journal } := by
  have hkeyed : s.Keyed := fun k r hr => key_of_record? ((harchive k.1 k.2).symm.trans hr)
  have hload : ∀ r, r ∈ Archive.load s → e.record? r.player r.objective = some r := fun r hr =>
    (harchive r.player r.objective).symm.trans ((MemoryArchive.mem_load_iff hkeyed).1 hr)
  have hrun : e₀.perform levels (.restore (Archive.load s)) =
      .ok ((Archive.load s).length, e₀.reentered (Archive.load s)) :=
    restore_run fun r hr => hpackages ▸ Readable.of_record? hreadable (hload r hr)
  have hrecords : ∀ p o, (e₀.reentered (Archive.load s)).record? p o = e.record? p o := by
    intro p o
    have hnone : e₀.record? p o = none := by
      rw [record?, hempty]
      rfl
    rw [record?_reentered (MemoryArchive.nodup_load hkeyed) (p, o), hnone, Option.or_none,
      MemoryArchive.find?_load hkeyed]
    exact harchive p o
  -- There is one record for each objective that is active.
  have hlength : (Archive.load s).length = e.progress.keys.length := by
    rw [← List.length_map (·.key)]
    refine List.Perm.length_eq ((List.perm_ext_iff_of_nodup (MemoryArchive.nodup_load hkeyed)
      e.progress.nodup_keys).2 fun k => ?_)
    rw [Slots.mem_keys_iff, isActive_eq_isSome, ← harchive, Option.isSome_iff_exists]
    constructor
    · intro hk
      obtain ⟨r, hr, rfl⟩ := List.mem_map.1 hk
      exact ⟨r, (MemoryArchive.mem_load_iff hkeyed).1 hr⟩
    · rintro ⟨r, hr⟩
      have hkey : r.key = k := hkeyed k r hr
      exact List.mem_map.2 ⟨r, (MemoryArchive.mem_load_iff hkeyed).2 (hkey.symm ▸ hr), hkey⟩
  refine ⟨_, hlength ▸ hrun, hrecords, ?_, reentered_eq e₀ _⟩
  have htidy' := perform_tidy (hempty ▸ Slots.tidy_empty) hrun
  refine Slots.tracked_eq htidy' htidy fun p o => ?_
  rw [isActive_eq_isSome, isActive_eq_isSome, hrecords]

open Delivery in
/-- **A restart is transparent.**  Let packages that are put in force in the course of a run keep
the definitions of what is active then.  Once the changes that the run has queued are written to an
archive in memory, whatever flushes there were before the last one, a new engine with the same
packages that reads the archive back has everything active that was, with the same progress and the
same start.  It counts all of it, has as many players with a slot, sets no events off and queues
nothing; but for progress and the journal it is as it was before. -/
theorem restart_transparent {registry registry' : Registry}
    {integrations integrations' : Integrations} {world world' : World} {archived : Bool}
    {screen screen' : String} {clock clock' : Calendar.Timestamp} {dice dice' : Dice}
    {d : Delivery MemoryArchive} {batch : List RecordChange}
    {apply : List RecordChange → MemoryArchive → Bool × MemoryArchive}
    (hcalm : Undisturbed levels (fresh registry integrations world true screen clock dice) cs)
    (hlawful : ∀ packages, .replacePackages packages ∈ cs → packages.Lawful)
    (hrun : performAll levels cs (fresh registry integrations world true screen clock dice) = .ok e)
    (hdelivery : Run Faithful MemoryArchive.empty d) (hsent : d.sent = e.queued)
    (hbatch : batch.Perm d.writer.pending.values) (happly : Faithful apply)
    (hdone : d.Succeeds batch apply) :
    ∃ e₁ e₂, (fresh registry' integrations' world' archived screen' clock' dice').perform levels
        (.replacePackages e.packages) = .ok ((), e₁) ∧
      e₁.perform levels (.restore (Archive.load (d.flush batch apply).archive)) =
        .ok (e.progress.keys.length, e₂) ∧
      (∀ p o, e₂.record? p o = e.record? p o) ∧
      e₂.progress.tracked = e.progress.tracked ∧
      e₂ = { e₁ with progress := e₂.progress, journal := e₂.journal } ∧
      (∀ epoch, e₂.journal.times epoch .rewarded = 0) ∧ e₂.queued = [] := by
  have hlawful₀ := Packages.lawful_empty
  have hreadable₀ := readable_fresh registry integrations world true screen clock dice
  obtain ⟨-, hreadable⟩ := readable_of_performAll hlawful hrun hlawful₀ hreadable₀
  have htidy : e.progress.Tidy := tidy_of_performAll Slots.tidy_empty hrun
  obtain ⟨-, htold⟩ := told_of_performAll hcalm hlawful hrun hlawful₀ hreadable₀ rfl
    fun p o => .inr ⟨rfl, rfl⟩
  have hsound := hdelivery.sound fun _ h => h
  -- Of each key the archive has what was sent last, and that is what the engine has.
  have harchive : ∀ p o, (d.flush batch apply).archive.get? p o = e.record? p o := by
    intro p o
    have hflush := hsound.recordAt_flush (hsound.lists hbatch) happly hdone (p, o)
    have hget : (d.flush batch apply).archive.get? p o = e.replayed.get? p o := by
      rw [hsent] at hflush
      exact hflush
    rw [hget, get?_replayed]
    rcases htold p o with hmirrored | ⟨hnone, hnothing⟩
    · unfold Mirrored at hmirrored
      split at hmirrored
      · rename_i r hr
        rw [hmirrored, hr]
        rfl
      · rename_i hr
        rw [hmirrored, hr]
        rfl
    · rw [latest?_of_queuedFor_eq_nil hnothing, hnone]
      rfl
  let e₁ : Engine :=
    { fresh registry' integrations' world' archived screen' clock' dice' with
      packages := e.packages }
  have hreload : (fresh registry' integrations' world' archived screen' clock' dice').perform levels
      (.replacePackages e.packages) = .ok ((), e₁) := rfl
  obtain ⟨e₂, hrestore, hrecords, htracked, heq⟩ :=
    restored_from_archive levels hreadable htidy harchive (show e₁.packages = e.packages from rfl)
      rfl
  refine ⟨e₁, e₂, hreload, hrestore, hrecords, htracked, heq, fun epoch => ?_, ?_⟩
  · have hsteps : Steps .restore e₁ e₂ := perform_steps hrestore
    exact hsteps.times_rewarded nofun
  · rw [heq]
    cases archived <;> rfl

/-- A run that starts an objective. -/
def started : List Command :=
  [.replacePackages wolves, .request ⟨"ann"⟩ (.startObjective ⟨"forest", "wolves"⟩)]

theorem undisturbed_started : Undisturbed 1 bare started where
  kept before packages after e h hrun p o r hr := by
    -- Packages are put in force at the beginning only, where nothing is active.
    match before with
    | [] =>
      cases hrun
      cases hr
    | [_] => simp [started] at h
    | _ :: _ :: _ => simp [started] at h
  reread before records after e h := by
    have hmem : .restore records ∈ started := h ▸ List.mem_append_right _ List.mem_cons_self
    simp [started] at hmem

/-- What was started before a restart is active after it. -/
theorem restart_transparent_of_started :
    ∃ e e₁ e₂ count, performAll 1 started bare = .ok e ∧
      bare.perform 1 (.replacePackages e.packages) = .ok ((), e₁) ∧
      e₁.perform 1 (.restore (Archive.load (Archive.apply e.queued MemoryArchive.empty))) =
        .ok (count, e₂) ∧
      count = (1 : Nat) ∧ ∀ p o, e₂.record? p o = e.record? p o := by
  obtain ⟨e, op, hrun, hqueued, hcount⟩ : ∃ e op, performAll 1 started bare = .ok e ∧
      e.queued = [op] ∧ e.progress.keys.length = 1 := ⟨_, _, rfl, rfl, rfl⟩
  let takes : List RecordChange → MemoryArchive → Bool × MemoryArchive :=
    fun batch s => (true, Archive.apply batch s)
  have hlawful : ∀ packages, .replacePackages packages ∈ started → packages.Lawful := by
    intro packages h
    obtain rfl : packages = wolves := by simpa [started] using h
    exact lawful_wolves
  have htakes : Faithful takes := fun _ _ => .inl rfl
  obtain ⟨e₁, e₂, hreload, hrestore, hrecords, -⟩ :=
    restart_transparent undisturbed_started hlawful hrun (Delivery.Run.begun.send op)
      (by rw [hqueued]; rfl) (List.Perm.refl _) htakes (.inr rfl)
  refine ⟨e, e₁, e₂, _, hrun, hreload, ?_, hcount, hrecords⟩
  rw [hqueued]
  exact hrestore

end Engine

end Questbook
