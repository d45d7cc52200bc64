/-
Questbook/Progress/Archive.lean

Storage of progress records.

An archive takes changes one by one or in batches and gives back its records in order.  One keeps
records in memory, by key.  The other keeps rows of text: the player, the objective written out,
the data as JSON and the time by RFC 3339; a row that cannot be read back is passed over.
-/
import Questbook.Json.Printer
import Questbook.Json.Reader
import Questbook.Progress.Record

namespace Questbook

/-- A storage of progress records. -/
class Archive (S : Type) where
  /-- Make one change. -/
  change : RecordChange → S → S
  /-- All records that can be read, in order. -/
  load : S → List ProgressRecord

/-- Make the changes of a batch, in order. -/
def Archive.apply {S : Type} [Archive S] (batch : List RecordChange) (s : S) : S :=
  batch.foldl (fun s op => Archive.change op s) s

/-! ### In memory -/

/-- Records in memory. -/
structure MemoryArchive where
  records : Table ProgressKey ProgressRecord

namespace MemoryArchive

/-- No records. -/
def empty : MemoryArchive := ⟨∅⟩

instance : Inhabited MemoryArchive := ⟨empty⟩

/-- The record of a key. -/
def get? (s : MemoryArchive) (player : PlayerId) (objective : ObjectId) : Option ProgressRecord :=
  s.records.find? (player, objective)

instance : Archive MemoryArchive where
  change op s := match op with
    | .upsert r => ⟨s.records.insert r.key r⟩
    | .delete player objective => ⟨s.records.erase (player, objective)⟩
  load s := s.records.values.mergeSort fun a b => ProgressKey.atMost a.key b.key

end MemoryArchive

/-! ### In rows of text -/

/-- A row without its key. -/
structure Row where
  data : String
  startedAt : String
deriving DecidableEq, Repr

/-- Rows by the texts of player and objective. -/
structure RowArchive where
  rows : Table (String × String) Row

namespace RowArchive

/-- No rows. -/
def empty : RowArchive := ⟨∅⟩

instance : Inhabited RowArchive := ⟨empty⟩

/-- The row of a record. -/
def rowOf (r : ProgressRecord) : Row := ⟨r.data.print, r.startedAt.offsetText⟩

/-- The record in a row, if it can be read. -/
def record? (key : String × String) (row : Row) : Option ProgressRecord := do
  let objective ← ObjectId.parse? key.2
  let data ← Json.read? row.data
  let startedAt ← Calendar.Timestamp.ofStrict? row.startedAt
  pure ⟨⟨key.1⟩, objective, data, startedAt⟩

/-- The order of rows: by player, then by objective, both as text. -/
def atMost (a b : String × String) : Bool :=
  if a.1 = b.1 then Text.atMost a.2 b.2 else Text.atMost a.1 b.1

/-- Put a row in by hand, unless its key is there. -/
def insertRaw (s : RowArchive) (player objective : String) (row : Row) : Bool × RowArchive :=
  if s.rows.contains (player, objective) then (false, s)
  else (true, ⟨s.rows.insert (player, objective) row⟩)

instance : Archive RowArchive where
  change op s := match op with
    | .upsert r => ⟨s.rows.insert (r.player.text, r.objective.text) (rowOf r)⟩
    | .delete player objective => ⟨s.rows.erase (player.text, objective.text)⟩
  load s := (s.rows.entries.mergeSort fun a b => atMost a.1 b.1).filterMap fun e => record? e.1 e.2

end RowArchive

end Questbook
