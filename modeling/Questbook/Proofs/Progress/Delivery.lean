/-
Questbook/Proofs/Progress/Delivery.lean

The writer loses nothing.

What was sent and has not reached the archive is gathered, of each key the latest change.  So for
every key one of two things holds at any time: the latest change sent is gathered, or the archive
has for the key what all the changes sent would have made of it.  A batch that fails keeps this up
whatever part of it was carried out, since each of its changes is gathered again; that it was
carried out already does no harm.

Main result: `delivered`.  After a flush that succeeds, or has nothing to write, the archive holds
what the changes would have made of it one by one; and an archive that takes a batch as a whole or
not at all holds between such flushes what it held after the last of them.
-/
import Questbook.Proofs.Progress.Keyed

namespace Questbook

variable {S : Type}

/-- How an archive may take a batch: all of it, or it fails with some part from the beginning
carried out. -/
def Faithful [Archive S] (apply : List RecordChange → S → Bool × S) : Prop :=
  ∀ batch s, apply batch s = (true, Archive.apply batch s) ∨
    ∃ n, apply batch s = (false, Archive.apply (batch.take n) s)

/-- How an archive may take a batch that carries out nothing of one that fails. -/
def Atomic [Archive S] (apply : List RecordChange → S → Bool × S) : Prop :=
  ∀ batch s, apply batch s = (true, Archive.apply batch s) ∨ apply batch s = (false, s)

theorem Atomic.faithful [Archive S] {apply : List RecordChange → S → Bool × S} (h : Atomic apply) :
    Faithful apply := by
  intro batch s
  rcases h batch s with hok | hfailed
  · exact .inl hok
  · exact .inr ⟨0, hfailed⟩

/-- A writer and its archive, with what has been sent so far, and what the archive was and had been
sent at the last flush that left nothing undone. -/
structure Delivery (S : Type) where
  writer : Writer
  archive : S
  sent : List RecordChange
  saved : S
  sentBySave : List RecordChange

namespace Delivery

/-- Nothing has been sent yet. -/
def begun (s : S) : Delivery S := ⟨Writer.fresh, s, [], s, []⟩

/-- Send a change. -/
def send (d : Delivery S) (op : RecordChange) : Delivery S :=
  { d with writer := d.writer.send op, sent := d.sent ++ [op] }

/-- Whether a flush leaves nothing undone: there is nothing to write, or the archive takes it. -/
def Succeeds (d : Delivery S) (batch : List RecordChange)
    (apply : List RecordChange → S → Bool × S) : Prop :=
  d.writer.pending.isEmpty = true ∨ (apply batch d.archive).1 = true

instance (d : Delivery S) (batch : List RecordChange)
    (apply : List RecordChange → S → Bool × S) : Decidable (d.Succeeds batch apply) :=
  inferInstanceAs (Decidable (_ ∨ _))

/-- Flush, with the changes gathered in the order of `batch`. -/
def flush (d : Delivery S) (batch : List RecordChange)
    (apply : List RecordChange → S → Bool × S) : Delivery S :=
  let (writer, archive) := d.writer.flushAs batch apply d.archive
  if d.Succeeds batch apply then ⟨writer, archive, d.sent, archive, d.sent⟩
  else { d with writer, archive }

/-- Flush a last time and stop. -/
def shutdown (d : Delivery S) (batch : List RecordChange)
    (apply : List RecordChange → S → Bool × S) : Delivery S :=
  let d := d.flush batch apply
  { d with writer := d.writer.stop }

/-- What sends and flushes may lead to, where each flush drains the changes gathered in some order
and the archive takes batches in one of the ways `allowed`. -/
inductive Run (allowed : (List RecordChange → S → Bool × S) → Prop) (s : S) : Delivery S → Prop
  | begun : Run allowed s (begun s)
  | send {d : Delivery S} (h : Run allowed s d) (op : RecordChange) : Run allowed s (d.send op)
  | flush {d : Delivery S} {batch : List RecordChange} {apply : List RecordChange → S → Bool × S}
      (h : Run allowed s d) (hbatch : batch.Perm d.writer.pending.values) (happly : allowed apply) :
      Run allowed s (d.flush batch apply)

section

variable {d : Delivery S} {batch : List RecordChange} {apply : List RecordChange → S → Bool × S}

theorem flush_of_isEmpty (h : d.writer.pending.isEmpty = true) :
    d.flush batch apply = ⟨d.writer, d.archive, d.sent, d.archive, d.sent⟩ := by
  simp [flush, Writer.flushAs, Succeeds, h]

theorem flush_of_taken {t : S} (h : d.writer.pending.isEmpty = false)
    (happly : apply batch d.archive = (true, t)) :
    d.flush batch apply = ⟨{ d.writer with pending := ∅ }, t, d.sent, t, d.sent⟩ := by
  simp [flush, Writer.flushAs, Succeeds, h, happly]

theorem flush_of_failed {t : S} (h : d.writer.pending.isEmpty = false)
    (happly : apply batch d.archive = (false, t)) : d.flush batch apply =
      { d with writer := { d.writer with pending := Writer.requeue batch ∅ }, archive := t } := by
  simp [flush, Writer.flushAs, Succeeds, h, happly]

end

/-! ### The batch of a flush -/

section

variable {pending : Table ProgressKey RecordChange} {batch : List RecordChange}
  {op : RecordChange} {k : ProgressKey}

/-- A batch lists the changes gathered, each of them under its own key. -/
structure Lists (batch : List RecordChange) (pending : Table ProgressKey RecordChange) : Prop where
  mem_iff : ∀ op, op ∈ batch ↔ pending.find? op.key = some op
  key_eq : ∀ k op, pending.find? k = some op → op.key = k

theorem lists_of_perm (hkey : ∀ k op, pending.find? k = some op → op.key = k)
    (hbatch : batch.Perm pending.values) : Lists batch pending := by
  refine ⟨fun op => ?_, hkey⟩
  rw [hbatch.mem_iff, Table.mem_values_iff]
  refine ⟨fun h => ?_, fun h => ⟨op.key, h⟩⟩
  obtain ⟨k, hk⟩ := h
  obtain rfl := hkey k op hk
  exact hk

/-- A batch has of each key the change that is gathered, and no other one. -/
theorem Lists.eq_find? (h : Lists batch pending) (hop : op ∈ batch) (hk : op.key = k) :
    pending.find? k = some op :=
  hk ▸ (h.mem_iff op).1 hop

theorem Lists.latest?_eq (h : Lists batch pending) (k : ProgressKey) :
    RecordChange.latest? k batch = pending.find? k := by
  cases hlatest : RecordChange.latest? k batch with
  | some op =>
    obtain ⟨hop, hkey⟩ := RecordChange.mem_of_latest? hlatest
    exact (h.eq_find? hop hkey).symm
  | none =>
    cases hfind : pending.find? k with
    | none => rfl
    | some op =>
      have hkey : op.key = k := h.key_eq k op hfind
      have hop : op ∈ batch := (h.mem_iff op).2 (hkey ▸ hfind)
      exact absurd hkey (RecordChange.latest?_eq_none_iff.1 hlatest op hop)

theorem find?_requeue (batch : List RecordChange) (t : Table ProgressKey RecordChange)
    (k : ProgressKey) : (Writer.requeue batch t).find? k =
      (t.find? k).or (batch.find? fun op => op.key = k) := by
  induction batch generalizing t with
  | nil => simp [Writer.requeue]
  | cons op rest ih =>
    rw [Writer.requeue, List.foldl_cons, ← Writer.requeue, ih]
    by_cases hkey : op.key = k
    · subst hkey
      cases hfind : t.find? op.key <;> simp [Table.contains, hfind]
    · cases hfind : t.find? op.key <;> simp [Table.contains, hfind, hkey, Table.find?_insert]

/-- What goes back of a batch is what was gathered. -/
theorem Lists.find?_requeue (h : Lists batch pending) (k : ProgressKey) :
    (Writer.requeue batch ∅).find? k = pending.find? k := by
  rw [Delivery.find?_requeue, Table.find?_empty, Option.none_or]
  cases hfind : batch.find? fun op => op.key = k with
  | some op =>
    have hkey : op.key = k := by simpa using List.find?_some hfind
    exact (h.eq_find? (List.mem_of_find?_eq_some hfind) hkey).symm
  | none =>
    cases hpending : pending.find? k with
    | none => rfl
    | some op =>
      have hkey : op.key = k := h.key_eq k op hpending
      have hop : op ∈ batch := (h.mem_iff op).2 (hkey ▸ hpending)
      exact absurd hkey (by simpa using List.find?_eq_none.1 hfind op hop)

end

/-! ### What holds at any time -/

open KeyedArchive

variable [KeyedArchive S] {s : S} {d : Delivery S} {batch : List RecordChange}
  {apply : List RecordChange → S → Bool × S}

/-- For each key, the latest change sent is gathered, or the archive has what the changes sent make
of it; and what was saved is what had been sent by then. -/
structure Sound (s : S) (d : Delivery S) : Prop where
  running : d.writer.running = true
  settled : ∀ k,
    (∃ op, d.writer.pending.find? k = some op ∧ RecordChange.latest? k d.sent = some op) ∨
    (d.writer.pending.find? k = none ∧
      recordAt d.archive k = recordAt (Archive.apply d.sent s) k)
  saved : ∀ k, recordAt d.saved k = recordAt (Archive.apply d.sentBySave s) k
  sentBySave : d.sentBySave <+: d.sent

theorem Sound.lists (h : Sound s d) (hbatch : batch.Perm d.writer.pending.values) :
    Lists batch d.writer.pending := by
  refine lists_of_perm (fun k op hfind => ?_) hbatch
  rcases h.settled k with ⟨op', hfind', hlatest⟩ | ⟨hnone, -⟩
  · rw [hfind] at hfind'
    cases hfind'
    exact (RecordChange.mem_of_latest? hlatest).2
  · rw [hfind] at hnone
    cases hnone

theorem sound_begun (s : S) : Sound s (begun s) where
  running := rfl
  settled _ := .inr ⟨rfl, rfl⟩
  saved _ := rfl
  sentBySave := List.prefix_rfl

theorem Sound.send (h : Sound s d) (op : RecordChange) : Sound s (d.send op) where
  running := by simp [Delivery.send, Writer.send, h.running]
  settled k := by
    have hpending : (d.send op).writer.pending = d.writer.pending.insert op.key op := by
      simp [Delivery.send, Writer.send, h.running]
    rw [hpending, Table.find?_insert]
    by_cases hkey : op.key = k
    · exact .inl ⟨op, by rw [if_pos hkey],
        by simp [Delivery.send, RecordChange.latest?_append_singleton, hkey]⟩
    · rw [if_neg hkey]
      have hsame : RecordChange.latest? k (d.sent ++ [op]) = RecordChange.latest? k d.sent := by
        rw [RecordChange.latest?_append_singleton, if_neg hkey]
      rcases h.settled k with ⟨op', hfind, hlatest⟩ | ⟨hnone, hrecord⟩
      · exact .inl ⟨op', hfind, hsame.trans hlatest⟩
      · refine .inr ⟨hnone, hrecord.trans ?_⟩
        simp only [Delivery.send, recordAt_apply, hsame]
  saved := h.saved
  sentBySave := h.sentBySave.trans (List.prefix_append _ _)

/-- A batch that is carried out as a whole leaves what all changes sent make of the archive. -/
theorem Sound.recordAt_batch (h : Sound s d) (hlists : Lists batch d.writer.pending)
    (k : ProgressKey) :
    recordAt (Archive.apply batch d.archive) k = recordAt (Archive.apply d.sent s) k := by
  rw [recordAt_apply, hlists.latest?_eq]
  rcases h.settled k with ⟨op, hfind, hlatest⟩ | ⟨hnone, hrecord⟩
  · rw [hfind, recordAt_apply, hlatest]
  · rw [hnone]
    exact hrecord

/-- A part of a batch does not concern a key without a change gathered. -/
theorem recordAt_take (hlists : Lists batch d.writer.pending) {k : ProgressKey}
    (hnone : d.writer.pending.find? k = none) (n : Nat) (t : S) :
    recordAt (Archive.apply (batch.take n) t) k = recordAt t k := by
  have hlatest : RecordChange.latest? k (batch.take n) = none := by
    refine RecordChange.latest?_eq_none_iff.2 fun op hop hkey => ?_
    have hfind : d.writer.pending.find? k = some op :=
      hlists.eq_find? (List.mem_of_mem_take hop) hkey
    rw [hnone] at hfind
    cases hfind
  rw [recordAt_apply, hlatest]

/-- A flush that leaves nothing undone leaves what all changes sent make of the archive. -/
theorem Sound.recordAt_flush (h : Sound s d) (hlists : Lists batch d.writer.pending)
    (happly : Faithful apply) (hdone : d.Succeeds batch apply) (k : ProgressKey) :
    recordAt (d.flush batch apply).archive k = recordAt (Archive.apply d.sent s) k := by
  cases hempty : d.writer.pending.isEmpty with
  | true =>
    rw [flush_of_isEmpty hempty]
    rcases h.settled k with ⟨op, hfind, -⟩ | ⟨-, hrecord⟩
    · rw [Table.find?_of_isEmpty hempty] at hfind
      cases hfind
    · exact hrecord
  | false =>
    rcases happly batch d.archive with htaken | ⟨n, hfailed⟩
    · rw [flush_of_taken hempty htaken]
      exact h.recordAt_batch hlists k
    · simp [Succeeds, hempty, hfailed] at hdone

theorem Sound.flush (h : Sound s d) (hbatch : batch.Perm d.writer.pending.values)
    (happly : Faithful apply) : Sound s (d.flush batch apply) := by
  have hlists := h.lists hbatch
  cases hempty : d.writer.pending.isEmpty with
  | true =>
    have hdone := h.recordAt_flush hlists happly (.inl hempty)
    rw [flush_of_isEmpty hempty] at hdone ⊢
    exact ⟨h.running, h.settled, hdone, List.prefix_rfl⟩
  | false =>
    rcases happly batch d.archive with htaken | ⟨n, hfailed⟩
    · have hdone := h.recordAt_flush hlists happly (.inr (by rw [htaken]))
      rw [flush_of_taken hempty htaken] at hdone ⊢
      exact ⟨h.running, fun k => .inr ⟨rfl, hdone k⟩, hdone, List.prefix_rfl⟩
    · rw [flush_of_failed hempty hfailed]
      refine ⟨h.running, fun k => ?_, h.saved, h.sentBySave⟩
      -- What was gathered is gathered again, so that the part carried out matters to no key.
      show (∃ op, (Writer.requeue batch ∅).find? k = some op ∧ _) ∨
        ((Writer.requeue batch ∅).find? k = none ∧ _)
      rw [hlists.find?_requeue]
      rcases h.settled k with hgathered | ⟨hnone, hrecord⟩
      · exact .inl hgathered
      · exact .inr ⟨hnone, (recordAt_take hlists hnone n d.archive).trans hrecord⟩

theorem Run.sound {allowed : (List RecordChange → S → Bool × S) → Prop}
    (hallowed : ∀ apply, allowed apply → Faithful apply) (h : Run allowed s d) : Sound s d := by
  induction h with
  | begun => exact sound_begun s
  | send _ op ih => exact ih.send op
  | flush _ hbatch happly ih => exact ih.flush hbatch (hallowed _ happly)

/-- An archive that takes batches as a whole stays as it is until it takes the next one. -/
theorem Run.archive_eq (h : Run Atomic s d) : d.archive = d.saved := by
  induction h with
  | begun => rfl
  | send _ op ih => exact ih
  | @flush d batch apply _ hbatch happly ih =>
    cases hempty : d.writer.pending.isEmpty with
    | true => rw [flush_of_isEmpty hempty]
    | false =>
      rcases happly batch d.archive with htaken | hfailed
      · rw [flush_of_taken hempty htaken]
      · rw [flush_of_failed hempty hfailed]
        exact ih

/-- **The writer loses nothing.**  Whatever was sent and flushed before, in whatever order batches
were drained and whatever part of a failed one was carried out: after a flush that finds nothing to
write, or whose batch the archive takes, the last one before the writer stops included, the archive
has for every key what all the changes sent make of it one by one.  And an archive that takes
batches as a whole or not at all is at any time what it was after the last such flush: what the
changes sent by then make of it. -/
theorem delivered (s : S) :
    (∀ d batch apply, Run Faithful s d → batch.Perm d.writer.pending.values → Faithful apply →
      d.Succeeds batch apply → ∀ k,
        recordAt (d.flush batch apply).archive k = recordAt (Archive.apply d.sent s) k ∧
        recordAt (d.shutdown batch apply).archive k = recordAt (Archive.apply d.sent s) k) ∧
    (∀ d, Run Atomic s d → d.archive = d.saved ∧ d.sentBySave <+: d.sent ∧
      ∀ k, recordAt d.archive k = recordAt (Archive.apply d.sentBySave s) k) := by
  refine ⟨fun d batch apply hrun hbatch happly hdone k => ?_, fun d hrun => ?_⟩
  · have hsound : Sound s d := hrun.sound fun _ h => h
    have hrecord := hsound.recordAt_flush (hsound.lists hbatch) happly hdone k
    exact ⟨hrecord, hrecord⟩
  · have hsound : Sound s d := hrun.sound fun _ h => h.faithful
    refine ⟨hrun.archive_eq, hsound.sentBySave, fun k => ?_⟩
    rw [hrun.archive_eq]
    exact hsound.saved k

/-- Two changes that are sent, a batch of which only the first is carried out, and one that the
archive takes. -/
theorem delivered_of_retry :
    ∃ d : Delivery MemoryArchive, d.sent.length = 2 ∧
      recordAt d.archive (⟨"ann"⟩, ⟨"forest", "wolves"⟩) =
        recordAt (Archive.apply d.sent MemoryArchive.empty) (⟨"ann"⟩, ⟨"forest", "wolves"⟩) := by
  let first : RecordChange := .upsert ⟨⟨"ann"⟩, ⟨"forest", "wolves"⟩, .null, ⟨0, 0⟩⟩
  let second : RecordChange := .delete ⟨"bob"⟩ ⟨"forest", "wolves"⟩
  let fails : List RecordChange → MemoryArchive → Bool × MemoryArchive :=
    fun batch s => (false, Archive.apply (batch.take 1) s)
  let takes : List RecordChange → MemoryArchive → Bool × MemoryArchive :=
    fun batch s => (true, Archive.apply batch s)
  have hfails : Faithful fails := fun _ _ => .inr ⟨1, rfl⟩
  have htakes : Faithful takes := fun _ _ => .inl rfl
  have hrun : Run Faithful MemoryArchive.empty
      ((((begun MemoryArchive.empty).send first).send second).flush [first, second] fails) :=
    ((Run.begun.send first).send second).flush (List.Perm.refl _) hfails
  obtain ⟨hdelivered, -⟩ := delivered MemoryArchive.empty
  exact ⟨_, rfl, (hdelivered _ [second, first] takes hrun (List.Perm.swap _ _ _) htakes
    (.inr rfl) (⟨"ann"⟩, ⟨"forest", "wolves"⟩)).1⟩

end Delivery

end Questbook
