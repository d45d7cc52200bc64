/-
Questbook/Proofs/Progress/Keyed.lean

What an archive holds after a list of changes.

An archive is keyed if a change concerns the record of its own key and no other one.  Of all the
changes made to such an archive only the latest of each key counts:

    recordAt (Archive.apply ops s) k  =  what the latest change of `k` in `ops` leaves, else
                                         recordAt s k.

So the order in which changes of different keys are made does not matter, and a part of a batch may
be made twice, which is what a writer relies on that gathers changes and tries again.
-/
import Mathlib.Data.List.Induction
import Questbook.Progress.Writer

namespace Questbook

namespace RecordChange

/-- The record that a change leaves under its key. -/
def record? : RecordChange → Option ProgressRecord
  | upsert record => some record
  | delete _ _ => none

/-- The latest change of a key, in a list that begins with the oldest change. -/
def latest? (k : ProgressKey) (ops : List RecordChange) : Option RecordChange :=
  (ops.filter (·.key = k)).getLast?

variable (k : ProgressKey) (ops : List RecordChange) (op : RecordChange)

theorem latest?_append_singleton :
    latest? k (ops ++ [op]) = if op.key = k then some op else latest? k ops := by
  unfold latest?
  rw [List.filter_append]
  by_cases hk : op.key = k <;> simp [hk]

/-- The latest change of a key is one of the changes, and it is of that key. -/
theorem mem_of_latest? {k : ProgressKey} {ops : List RecordChange} {op : RecordChange}
    (h : latest? k ops = some op) : op ∈ ops ∧ op.key = k := by
  simpa using List.mem_filter.1 (List.mem_of_getLast? h)

theorem latest?_eq_none_iff {k : ProgressKey} {ops : List RecordChange} :
    latest? k ops = none ↔ ∀ op ∈ ops, op.key ≠ k := by
  simp [latest?]

end RecordChange

/-- An archive in which a change concerns the record of its own key and no other one. -/
class KeyedArchive (S : Type) extends Archive S where
  /-- The record under a key. -/
  recordAt : S → ProgressKey → Option ProgressRecord
  recordAt_change : ∀ (op : RecordChange) (s : S) (k : ProgressKey),
    recordAt (change op s) k = if op.key = k then op.record? else recordAt s k

instance : KeyedArchive MemoryArchive where
  recordAt s k := s.records.find? k
  recordAt_change op s k := by
    cases op with
    | upsert r => exact Table.find?_insert s.records r.key k r
    | delete player objective => exact Table.find?_erase s.records (player, objective) k

namespace KeyedArchive

variable {S : Type} [KeyedArchive S]

/-- Only the latest change of each key counts. -/
theorem recordAt_apply (ops : List RecordChange) (s : S) (k : ProgressKey) :
    recordAt (Archive.apply ops s) k =
      (match RecordChange.latest? k ops with
      | some op => op.record?
      | none => recordAt s k) := by
  induction ops using List.reverseRecOn with
  | nil => rfl
  | append_singleton ops op ih =>
    have happly : Archive.apply (ops ++ [op]) s = Archive.change op (Archive.apply ops s) := by
      simp [Archive.apply]
    rw [happly, recordAt_change, RecordChange.latest?_append_singleton]
    by_cases hk : op.key = k
    · simp [hk]
    · simpa [hk] using ih

end KeyedArchive

/-! ### What an archive in memory gives back -/

namespace MemoryArchive

variable {s : MemoryArchive}

/-- Every record is under its own key. -/
def Keyed (s : MemoryArchive) : Prop := ∀ k r, s.records.find? k = some r → r.key = k

theorem mem_load_iff (h : s.Keyed) {r : ProgressRecord} :
    r ∈ Archive.load s ↔ s.records.find? r.key = some r := by
  have hmem : r ∈ Archive.load s ↔ r ∈ s.records.values := (List.mergeSort_perm _ _).mem_iff
  rw [hmem, Table.mem_values_iff]
  refine ⟨fun ⟨k, hk⟩ => ?_, fun hr => ⟨r.key, hr⟩⟩
  exact (h k r hk).symm ▸ hk

theorem nodup_load (h : s.Keyed) : ((Archive.load s).map (·.key)).Nodup := by
  have hkeys : s.records.values.map (·.key) = s.records.keys := by
    unfold Table.values Table.keys
    rw [List.map_map]
    exact List.map_congr_left fun x hx => h _ _ (Table.find?_of_mem_entries hx)
  have hperm : ((Archive.load s).map (·.key)).Perm (s.records.values.map (·.key)) :=
    (List.mergeSort_perm _ _).map _
  rw [hperm.nodup_iff, hkeys]
  exact s.records.distinct

theorem find?_load (h : s.Keyed) (k : ProgressKey) :
    (Archive.load s).find? (·.key = k) = s.records.find? k := by
  cases hfind : s.records.find? k with
  | none =>
    refine List.find?_eq_none.2 fun r hr => ?_
    rintro hkey
    obtain rfl : r.key = k := by simpa using hkey
    rw [(mem_load_iff h).1 hr] at hfind
    cases hfind
  | some r =>
    cases hload : (Archive.load s).find? (·.key = k) with
    | none =>
      have hr : r ∈ Archive.load s := (mem_load_iff h).2 ((h k r hfind).symm ▸ hfind)
      exact absurd (h k r hfind) (by simpa using List.find?_eq_none.1 hload r hr)
    | some x =>
      obtain rfl : x.key = k := by simpa using List.find?_some hload
      rw [← hfind]
      exact ((mem_load_iff h).1 (List.mem_of_find?_eq_some hload)).symm

end MemoryArchive

end Questbook
