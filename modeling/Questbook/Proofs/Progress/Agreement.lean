/-
Questbook/Proofs/Progress/Agreement.lean

The two archives hold the same records.

The archive in memory has a record under the player and the objective, the one of rows has it under
their texts.  Names that can be written out have different texts, so a change concerns the same
record in both; and what is read from a row is the record that was written, as far as its data and
its time are read back from their texts.

Main result: `archives_agree`.  After the same calls both give back the same records, each key once.
They list them in different orders: a character that comes before the dot, such as a hyphen, moves
the objectives of a package in front of those of a package whose name it extends.
-/
import Mathlib.Data.List.Nodup
import Questbook.Proofs.Names
import Questbook.Proofs.Progress.Keyed

namespace Questbook

/-! ### Calls -/

namespace Archive

/-- A call of an archive: a single change, or a batch of changes. -/
inductive Call where
  | single (op : RecordChange)
  | batch (ops : List RecordChange)

/-- The changes of a call, in order. -/
def Call.changes : Call → List RecordChange
  | single op => [op]
  | batch ops => ops

variable {S : Type} [Archive S]

/-- The archive after a call. -/
def Call.on : Call → S → S
  | single op, s => Archive.change op s
  | batch ops, s => Archive.apply ops s

/-- The archive after a list of calls. -/
def serve (calls : List Call) (s : S) : S := calls.foldl (fun s call => call.on s) s

/-- How changes are put together into calls does not matter. -/
theorem serve_eq_apply (calls : List Call) (s : S) :
    serve calls s = Archive.apply (calls.flatMap Call.changes) s := by
  induction calls generalizing s with
  | nil => rfl
  | cons call rest ih =>
    have hcall : call.on s = Archive.apply call.changes s := by cases call <;> rfl
    calc serve (call :: rest) s = serve rest (call.on s) := rfl
      _ = Archive.apply (rest.flatMap Call.changes) (Archive.apply call.changes s) := by
        rw [ih, hcall]
      _ = Archive.apply ((call :: rest).flatMap Call.changes) s := by
        simp [Archive.apply, List.flatMap_cons, List.foldl_append]

end Archive

/-! ### Rows -/

/-- The texts under which a row has a record. -/
def ProgressKey.texts (k : ProgressKey) : String × String := (k.1.text, k.2.text)

theorem ProgressKey.texts_inj {k k' : ProgressKey} (h : Entry.isPackageName k.2.package = true)
    (h' : Entry.isPackageName k'.2.package = true) : k.texts = k'.texts ↔ k = k' := by
  refine ⟨fun htexts => ?_, congrArg _⟩
  obtain ⟨⟨player⟩, objective⟩ := k
  obtain ⟨⟨player'⟩, objective'⟩ := k'
  obtain ⟨hplayer, hobjective⟩ := Prod.mk.inj htexts
  obtain rfl : objective = objective' := ObjectId.eq_of_text_eq
    (Entry.isPackageName_iff.1 h).2 (Entry.isPackageName_iff.1 h').2 hobjective
  obtain rfl : player = player' := hplayer
  rfl

/-- The data and the time of a record are read back from their texts. -/
structure ProgressRecord.ReadsBack (r : ProgressRecord) : Prop where
  data : Json.read? r.data.print = some r.data
  startedAt : Calendar.Timestamp.ofStrict? r.startedAt.offsetText = some r.startedAt

namespace RowArchive

/-- A record is read back from its row, unless its objective has the empty name. -/
theorem record?_rowOf {r : ProgressRecord} (hr : r.ReadsBack)
    (hpackage : Entry.isPackageName r.objective.package = true) :
    record? r.key.texts (rowOf r) = if r.objective.name = "" then none else some r := by
  unfold record? rowOf ProgressKey.texts ProgressRecord.key
  simp only [ObjectId.parse?_text hpackage, hr.data, hr.startedAt]
  split <;> rfl

/-- What is read from a row is under the texts of that row. -/
theorem texts_of_record? {key : String × String} {row : Row} {r : ProgressRecord}
    (h : record? key row = some r) : r.key.texts = key := by
  obtain ⟨player, name⟩ := key
  obtain ⟨objective, hobjective, h⟩ := Option.bind_eq_some_iff.1 h
  obtain ⟨data, -, h⟩ := Option.bind_eq_some_iff.1 h
  obtain ⟨startedAt, -, h⟩ := Option.bind_eq_some_iff.1 h
  cases h
  exact congrArg (player, ·) (ObjectId.parse?_eq_some_iff.1 hobjective).2.symm

theorem isOrdering : IsOrdering atMost := Text.isOrdering.lex Text.isOrdering

/-- The rows in the order in which they are read. -/
def sorted (w : RowArchive) : List ((String × String) × Row) :=
  w.rows.entries.mergeSort fun a b => atMost a.1 b.1

/-- Rows are passed over or give records, in their order. -/
theorem texts_load_sublist (w : RowArchive) :
    ((Archive.load w).map fun r => r.key.texts).Sublist (w.sorted.map Prod.fst) := by
  have h : ∀ l : List ((String × String) × Row),
      ((l.filterMap fun e => record? e.1 e.2).map fun r => r.key.texts).Sublist
        (l.map Prod.fst) := by
    intro l
    induction l with
    | nil => exact .slnil
    | cons e rest ih =>
      cases hread : record? e.1 e.2 with
      | none => simpa [hread] using ih.trans (List.sublist_cons_self ..)
      | some r => simpa [hread, texts_of_record? hread] using ih
  exact h w.sorted

theorem nodup_load (w : RowArchive) : ((Archive.load w).map (·.key)).Nodup := by
  have hrows : (w.sorted.map Prod.fst).Nodup :=
    ((List.mergeSort_perm _ _).map _).nodup_iff.2 w.rows.distinct
  have htexts := hrows.sublist w.texts_load_sublist
  rw [← Function.comp_def, ← List.map_map] at htexts
  exact htexts.of_map _

theorem pairwise_load (w : RowArchive) : (Archive.load w).Pairwise fun a b =>
    atMost a.key.texts b.key.texts = true := by
  have hrows : (w.sorted.map Prod.fst).Pairwise fun a b => atMost a b = true :=
    List.pairwise_map.2 (isOrdering.pairwise_mergeSort Prod.fst w.rows.entries)
  exact List.pairwise_map.1 (hrows.sublist w.texts_load_sublist)

end RowArchive

theorem MemoryArchive.pairwise_load (m : MemoryArchive) : (Archive.load m).Pairwise fun a b =>
    ProgressKey.atMost a.key b.key = true :=
  ProgressKey.isOrdering.pairwise_mergeSort ProgressRecord.key m.records.values

/-! ### The same records in both -/

/-- A change of an objective that `P` holds of, which writes what can be read back. -/
structure RecordChange.Expressible (P : ObjectId → Prop) (op : RecordChange) : Prop where
  named : P op.key.2
  readsBack : ∀ r, op.record? = some r → r.ReadsBack

/-- The rows are those of the records in memory, all of objectives that `P` holds of. -/
structure Agree (P : ObjectId → Prop) (m : MemoryArchive) (w : RowArchive) : Prop where
  rows : ∀ k : ProgressKey, P k.2 →
    w.rows.find? k.texts = (m.records.find? k).map RowArchive.rowOf
  /-- No row has another name. -/
  named : ∀ key row, w.rows.find? key = some row → ∃ k : ProgressKey, P k.2 ∧ k.texts = key
  keyed : m.Keyed
  written : ∀ k r, m.records.find? k = some r → P k.2 ∧ r.ReadsBack

namespace Agree

variable {P : ObjectId → Prop} {m : MemoryArchive} {w : RowArchive} {op : RecordChange}

theorem empty : Agree P MemoryArchive.empty RowArchive.empty where
  rows _ _ := rfl
  named _ _ h := by cases h
  keyed _ _ h := by cases h
  written _ _ h := by cases h

/-- One change, made to both. -/
theorem change (hP : ∀ id, P id → Entry.isPackageName id.package = true) (h : Agree P m w)
    (hop : op.Expressible P) : Agree P (Archive.change op m) (Archive.change op w) := by
  have hmemory : ∀ k, (Archive.change op m).records.find? k =
      if op.key = k then op.record? else m.records.find? k :=
    KeyedArchive.recordAt_change op m
  have hrows : ∀ key, (Archive.change op w).rows.find? key =
      if op.key.texts = key then op.record?.map RowArchive.rowOf else w.rows.find? key := by
    intro key
    cases op with
    | upsert r => exact Table.find?_insert w.rows r.key.texts key (RowArchive.rowOf r)
    | delete player objective => exact Table.find?_erase w.rows (player.text, objective.text) key
  refine ⟨fun k hk => ?_, fun key row hrow => ?_, fun k r hr => ?_, fun k r hr => ?_⟩
  · -- The key is that of the change in memory if and only if it is in the rows.
    rw [hrows, hmemory]
    simp only [ProgressKey.texts_inj (hP _ hop.named) (hP _ hk)]
    split
    · rfl
    · exact h.rows k hk
  · rw [hrows] at hrow
    by_cases hkey : op.key.texts = key
    · exact ⟨op.key, hop.named, hkey⟩
    · rw [if_neg hkey] at hrow
      exact h.named key row hrow
  · rw [hmemory] at hr
    split at hr
    · next hkey =>
      cases op with
      | upsert r' =>
        cases hr
        exact hkey
      | delete player objective => cases hr
    · exact h.keyed k r hr
  · rw [hmemory] at hr
    split at hr
    · next hkey => exact ⟨hkey ▸ hop.named, hop.readsBack r hr⟩
    · exact h.written k r hr

/-- The same changes, made to both. -/
theorem apply (hP : ∀ id, P id → Entry.isPackageName id.package = true)
    {ops : List RecordChange} (h : Agree P m w) (hops : ∀ op ∈ ops, op.Expressible P) :
    Agree P (Archive.apply ops m) (Archive.apply ops w) := by
  induction ops generalizing m w with
  | nil => exact h
  | cons op ops ih =>
    rw [List.forall_mem_cons] at hops
    exact ih (h.change hP hops.1) hops.2

/-- The same calls, made of both. -/
theorem serve (hP : ∀ id, P id → Entry.isPackageName id.package = true)
    {calls : List Archive.Call} (h : Agree P m w)
    (hcalls : ∀ call ∈ calls, ∀ op ∈ call.changes, op.Expressible P) :
    Agree P (Archive.serve calls m) (Archive.serve calls w) := by
  rw [Archive.serve_eq_apply, Archive.serve_eq_apply]
  refine h.apply hP fun op hop => ?_
  obtain ⟨call, hcall, hop⟩ := List.mem_flatMap.1 hop
  exact hcalls call hcall op hop

/-- The rows give back what is in memory, but for the objectives with the empty name. -/
theorem mem_load_iff (hP : ∀ id, P id → Entry.isPackageName id.package = true)
    (h : Agree P m w) {r : ProgressRecord} :
    r ∈ Archive.load w ↔ r ∈ Archive.load m ∧ r.objective.name ≠ "" := by
  rw [MemoryArchive.mem_load_iff h.keyed]
  have hread : ∀ r, m.records.find? r.key = some r →
      RowArchive.record? r.key.texts (RowArchive.rowOf r) =
        if r.objective.name = "" then none else some r := by
    intro r hr
    obtain ⟨hnamed, hreads⟩ := h.written r.key r hr
    exact RowArchive.record?_rowOf hreads (hP _ hnamed)
  -- A row is read back under the key that it was written for, unless its name is empty.
  constructor
  · intro hr
    obtain ⟨⟨key, row⟩, hmem, hrow⟩ := List.mem_filterMap.1 hr
    have hfind := Table.find?_of_mem_entries ((List.mergeSort_perm _ _).mem_iff.1 hmem)
    obtain ⟨k, hk, rfl⟩ := h.named key row hfind
    rw [h.rows k hk, Option.map_eq_some_iff] at hfind
    obtain ⟨r', hr', rfl⟩ := hfind
    obtain rfl : r'.key = k := h.keyed k r' hr'
    replace hrow := (hread r' hr').symm.trans hrow
    split at hrow
    · cases hrow
    · next hname =>
      cases hrow
      exact ⟨hr', hname⟩
  · rintro ⟨hr, hname⟩
    have hrow : w.rows.find? r.key.texts = some (RowArchive.rowOf r) := by
      rw [h.rows r.key (h.written _ r hr).1, hr, Option.map_some]
    refine List.mem_filterMap.2 ⟨(r.key.texts, RowArchive.rowOf r), ?_, ?_⟩
    · exact (List.mergeSort_perm _ _).mem_iff.2 (Table.mem_entries_of_find? hrow)
    · exact (hread r hr).trans (if_neg hname)

end Agree

/-! ### Objectives that can be written out -/

open Archive in
/-- A batch with a key that comes again, and a change of an objective whose package has a name that
extends the other one's. -/
def neighbours : List Call :=
  let record (package : String) : ProgressRecord :=
    ⟨⟨"ann"⟩, ⟨package, "wolves"⟩, .null, ⟨0, 0⟩⟩
  [.batch [.upsert (record "forest"), .delete ⟨"ann"⟩ ⟨"forest", "wolves"⟩,
      .upsert (record "forest")],
    .single (.upsert (record "forest-east"))]

theorem expressible_neighbours :
    ∀ call ∈ neighbours, ∀ op ∈ call.changes, op.Expressible ObjectId.Legible := by
  have hlegible : ∀ package name, Entry.isPackageName package = true → name ≠ "" →
      ObjectId.Legible ⟨package, name⟩ := fun _ _ hpackage hname => ⟨hpackage, hname⟩
  simp only [neighbours, List.forall_mem_cons, Archive.Call.changes]
  refine ⟨⟨⟨hlegible _ _ (by decide) (by decide), fun r hr => ?_⟩,
    ⟨hlegible _ _ (by decide) (by decide), nofun⟩,
    ⟨hlegible _ _ (by decide) (by decide), fun r hr => ?_⟩, nofun⟩,
    ⟨⟨hlegible _ _ (by decide) (by decide), fun r hr => ?_⟩, nofun⟩, nofun⟩
  all_goals
    cases hr
    exact ⟨rfl, by decide⟩

open Archive in
/-- **The two archives hold the same records.**  Let the same calls be made of an archive in memory
and of one of rows, single changes and batches in any order and with keys that come again, and let
the objectives be such as can be written out, and the data and the times such as are read back from
their texts.  Then both give back the same records, each key once.  The one in memory gives them in
the order of player, package and name, the one of rows in the order of player and objective as
texts.  These are different orders. -/
theorem archives_agree :
    (∀ calls : List Call,
      (∀ call ∈ calls, ∀ op ∈ call.changes, op.Expressible ObjectId.Legible) →
      let inMemory := load (serve calls MemoryArchive.empty)
      let inRows := load (serve calls RowArchive.empty)
      (∀ r, r ∈ inRows ↔ r ∈ inMemory) ∧
      (inMemory.map (·.key)).Nodup ∧ (inRows.map (·.key)).Nodup ∧
      (inMemory.Pairwise fun a b => ProgressKey.atMost a.key b.key = true) ∧
      (inRows.Pairwise fun a b => RowArchive.atMost a.key.texts b.key.texts = true)) ∧
    ∃ calls : List Call,
      (∀ call ∈ calls, ∀ op ∈ call.changes, op.Expressible ObjectId.Legible) ∧
      load (serve calls MemoryArchive.empty) ≠ load (serve calls RowArchive.empty) := by
  refine ⟨fun calls hcalls => ?_, neighbours, expressible_neighbours, fun heq => ?_⟩
  · have hagree := Agree.empty.serve (fun _ hid => hid.package) hcalls
    refine ⟨fun r => ?_, MemoryArchive.nodup_load hagree.keyed, RowArchive.nodup_load _,
      MemoryArchive.pairwise_load _, RowArchive.pairwise_load _⟩
    rw [hagree.mem_load_iff fun _ hid => hid.package, and_iff_left_iff_imp]
    intro hr
    have hrecord := (MemoryArchive.mem_load_iff hagree.keyed).1 hr
    exact (hagree.written r.key r hrecord).1.name
  · -- The list in memory is not sorted by the texts.
    have hsorted := RowArchive.pairwise_load (serve neighbours RowArchive.empty)
    rw [← heq] at hsorted
    have hload : load (serve neighbours MemoryArchive.empty) =
        (serve neighbours MemoryArchive.empty).records.values :=
      List.mergeSort_of_pairwise (by decide)
    rw [hload] at hsorted
    exact absurd hsorted (by decide)

open Archive in
/-- What comes first in memory comes last in rows. -/
theorem archives_agree_of_neighbours :
    (∀ call ∈ neighbours, ∀ op ∈ call.changes, op.Expressible ObjectId.Legible) ∧
    (∀ r, r ∈ load (serve neighbours RowArchive.empty) ↔
      r ∈ load (serve neighbours MemoryArchive.empty)) ∧
    RowArchive.atMost ("ann", "forest-east.wolves") ("ann", "forest.wolves") = true ∧
    ProgressKey.atMost (⟨"ann"⟩, ⟨"forest-east", "wolves"⟩) (⟨"ann"⟩, ⟨"forest", "wolves"⟩) =
      false :=
  ⟨expressible_neighbours, (archives_agree.1 neighbours expressible_neighbours).1, by decide,
    by decide⟩

end Questbook
