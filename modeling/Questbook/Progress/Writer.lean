/-
Questbook/Progress/Writer.lean

The writer between the engine and an archive.

Changes are gathered, of each key only the latest, and written in batches.  A batch that fails goes
back to what is gathered, except where a newer change of the same key has come in since; an archive
may have carried out part of a batch that fails.  A writer that was stopped has lost what it had
gathered and takes nothing more.

The queue in which changes and calls to flush wait for the writer is left out.  A change counts as
sent when the writer has received it, and a call to flush as made when the writer comes to it; the
queue keeps the order in which they were put in.
-/
import Questbook.Progress.Archive

namespace Questbook

/-- Changes gathered for an archive, the latest of each key. -/
structure Writer where
  pending : Table ProgressKey RecordChange
  running : Bool

namespace Writer

/-- A running writer without changes. -/
def fresh : Writer := ⟨∅, true⟩

instance : Inhabited Writer := ⟨fresh⟩

/-- Gather a change, one that the writer has received. -/
def send (w : Writer) (op : RecordChange) : Writer :=
  if w.running then { w with pending := w.pending.insert op.key op } else w

/-- Gather changes, in order. -/
def sendAll (w : Writer) (ops : List RecordChange) : Writer := ops.foldl send w

/-- Stop at once. -/
def stop (_ : Writer) : Writer := ⟨∅, false⟩

/-- Take the changes of a failed batch back, unless there are newer ones. -/
def requeue (batch : List RecordChange) (pending : Table ProgressKey RecordChange) :
    Table ProgressKey RecordChange :=
  batch.foldl (fun t op => if t.contains op.key then t else t.insert op.key op) pending

/-- Write what is gathered, in the order of `batch`, which lists it.  `apply` tells whether the
archive took the batch, and what has become of the archive. -/
def flushAs {S : Type} (batch : List RecordChange) (apply : List RecordChange → S → Bool × S)
    (w : Writer) (s : S) : Writer × S :=
  if w.pending.isEmpty then (w, s)
  else
    match apply batch s with
    | (true, s) => ({ w with pending := ∅ }, s)
    -- Nothing comes in while a batch is written, so that all of it goes back.
    | (false, s) => ({ w with pending := requeue batch ∅ }, s)

/-- Write what is gathered. -/
def flush {S : Type} (apply : List RecordChange → S → Bool × S) (w : Writer) (s : S) : Writer × S :=
  w.flushAs w.pending.values apply s

end Writer

end Questbook
