/-
Questbook/Progress/Record.lean

Progress as it is stored: a record for each active objective of a player, and the changes to such
records.
-/
import Questbook.Calendar.Timestamp
import Questbook.Json.Reader
import Questbook.World.Decode

namespace Questbook

/-- What a record belongs to. -/
abbrev ProgressKey := PlayerId × ObjectId

/-- Stored progress of an active objective. -/
structure ProgressRecord where
  player : PlayerId
  objective : ObjectId
  data : Json
  startedAt : Calendar.Timestamp

/-- What a record belongs to. -/
def ProgressRecord.key (r : ProgressRecord) : ProgressKey := (r.player, r.objective)

/-- The point in time that a JSON string denotes. -/
def Calendar.Timestamp.ofJson? (j : Json) : Option Calendar.Timestamp :=
  j.text? >>= Calendar.Timestamp.ofLenient?

/-- A record read from JSON; all members have to be there. -/
def ProgressRecord.ofJson? (j : Json) : Option ProgressRecord := do
  match ← Json.members? openRecord ["player", "objective", "data", "started_at"] j with
  | [player, objective, data, startedAt] =>
    let player ← player.required PlayerId.ofJson?
    let objective ← objective.required ObjectId.ofJson?
    let data ← data.required Json.handedOn?
    let startedAt ← startedAt.required Calendar.Timestamp.ofJson?
    pure ⟨player, objective, data, startedAt⟩
  | _ => none

/-- A change of storage. -/
inductive RecordChange where
  | upsert (record : ProgressRecord)
  | delete (player : PlayerId) (objective : ObjectId)

/-- The record that a change belongs to. -/
def RecordChange.key : RecordChange → ProgressKey
  | upsert record => record.key
  | delete player objective => (player, objective)

/-- The order of keys: by player, then by objective. -/
def ProgressKey.atMost (a b : ProgressKey) : Bool :=
  if a.1 = b.1 then a.2.atMost b.2 else Text.atMost a.1.text b.1.text

end Questbook
