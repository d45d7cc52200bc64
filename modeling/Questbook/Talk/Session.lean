/-
Questbook/Talk/Session.lean

Running conversations, at most one per player.

A session has a number of its own.  Whoever works on a session holds its number, and by it tells
whether the session is still the player's: one that has ended meanwhile is gone from the table,
and another one in its place has another number.  The numbers have no bound.
-/
import Questbook.Talk.Chronicle

namespace Questbook

/-- What a session waits for. -/
inductive Phase where
  /-- Conditions or events are running; choices are refused. -/
  | resolving
  /-- The player is to pick one of the replies, each given by its name and its text. -/
  | selecting (text : String) (offered : List (String × String))
deriving DecidableEq, Repr

/-- A running conversation.  It goes on with the definition it began with. -/
structure Session where
  number : Nat
  talk : Conversation
  phase : Phase
  /-- The names of the NPC's lines so far. -/
  history : List String
  screen : Screen

/-- What the player sees of a session. -/
def Session.state (s : Session) : TalkState :=
  match s.phase with
  | .resolving => .resolving
  | .selecting text offered => .selecting s.talk.id text (offered.map Prod.snd)

/-- The sessions of all players. -/
structure Sessions where
  current : Table PlayerId Session
  /-- The number of the next session. -/
  nextNumber : Nat
  chronicle : Chronicle

namespace Sessions

/-- No sessions. -/
def empty : Sessions := ⟨∅, 0, []⟩

instance : Inhabited Sessions := ⟨empty⟩

/-- The session of a player. -/
def find? (s : Sessions) (p : PlayerId) : Option Session := s.current.find? p

/-- The session of a player, if it is still the one with a number. -/
def held? (s : Sessions) (p : PlayerId) (number : Nat) : Option Session :=
  (s.find? p).filter (·.number = number)

/-- Whether a player's session is still the one with a number. -/
def isCurrent (s : Sessions) (p : PlayerId) (number : Nat) : Bool := (s.held? p number).isSome

/-- How many sessions there are. -/
def size (s : Sessions) : Nat := s.current.size

/-- What a player sees, if he is in a conversation. -/
def state? (s : Sessions) (p : PlayerId) : Option TalkState := (s.find? p).map Session.state

/-- The NPC's lines that a player has seen in his session. -/
def history (s : Sessions) (p : PlayerId) : List String := ((s.find? p).map Session.history).getD []

/-- Open a session that has shown nothing yet; also its number. -/
def start (s : Sessions) (p : PlayerId) (talk : Conversation) (screen : Screen) : Nat × Sessions :=
  (s.nextNumber,
    ⟨s.current.insert p ⟨s.nextNumber, talk, .resolving, [], screen⟩, s.nextNumber + 1,
      ⟨p, s.nextNumber, .began talk screen.style⟩ :: s.chronicle⟩)

/-- Set the session of a player. -/
def put (s : Sessions) (p : PlayerId) (session : Session) : Sessions :=
  { s with current := s.current.insert p session }

/-- Remove the session of a player. -/
def drop (s : Sessions) (p : PlayerId) : Sessions := { s with current := s.current.erase p }

/-- Write into the chronicle what has happened to a session of a player. -/
def tell (s : Sessions) (p : PlayerId) (number : Nat) (what : Moment) : Sessions :=
  { s with chronicle := ⟨p, number, what⟩ :: s.chronicle }

/-- What has happened to a session. -/
def story (s : Sessions) (number : Nat) : List (PlayerId × Moment) := s.chronicle.story number

/-! ### The view of each change -/

section

variable {s : Sessions} {p q : PlayerId} {session : Session} {number : Nat}

theorem find?_put : (s.put p session).find? q = if p = q then some session else s.find? q :=
  s.current.find?_insert p q session

theorem find?_put_self : (s.put p session).find? p = some session := by
  rw [find?_put, if_pos rfl]

theorem find?_drop : (s.drop p).find? q = if p = q then none else s.find? q :=
  s.current.find?_erase p q

theorem find?_start (talk : Conversation) (screen : Screen) : (s.start p talk screen).2.find? q =
    if p = q then some ⟨s.nextNumber, talk, .resolving, [], screen⟩ else s.find? q :=
  s.current.find?_insert p q _

theorem held?_eq_some_iff :
    s.held? p number = some session ↔ s.find? p = some session ∧ session.number = number := by
  rw [held?, Option.filter_eq_some_iff, decide_eq_true_eq]

/-- Whoever is in the session with a number has it. -/
theorem isCurrent_iff :
    s.isCurrent p number = true ↔ ∃ session, s.held? p number = some session :=
  Option.isSome_iff_exists

theorem isCurrent_of_find? (h : s.find? p = some session) :
    s.isCurrent p session.number = true :=
  isCurrent_iff.2 ⟨session, held?_eq_some_iff.2 ⟨h, rfl⟩⟩

end

end Sessions

end Questbook
