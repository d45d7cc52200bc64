/-
Questbook/Engine/Talks.lean

Conversations in progress.

A conversation shows the first line of its NPC whose conditions hold, and then waits for the player
to pick a reply.  The reply's events are fired and its pointers lead to the next line.  Events and
conditions may end the session they run in, so every step holds the number of its session and goes
on only while the session is still the player's.
-/
import Questbook.Engine.Fire

namespace Questbook.Talks

/-! ### Ending -/

/-- Fire the final events of a session, one after another. -/
def farewell (n : Nested) (p : PlayerId) (number : Nat) : List EventRef → Act Unit
  | [] => pure ()
  | ⟨id, event⟩ :: rest => do
    Act.tell p number (.fired id)
    discard (Action.fire n p event)
    farewell n p number rest

/-- Tear down the session that a player has: its screen is closed, and at a natural end the final
events are fired. -/
def depart (n : Nested) (p : PlayerId) (session : Session) (how : Parting) : Act Unit := do
  modify (·.parted p session how)
  if how.natural then farewell n p session.number session.talk.finalEvents

/-- End a session if it is still the player's. -/
def finish (n : Nested) (p : PlayerId) (number : Nat) (how : Parting) : Act Bool := do
  match (← get).sessions.held? p number with
  | none => pure false
  | some session =>
    depart n p session how
    pure true

/-- End a session, and say so. -/
def conclude (n : Nested) (p : PlayerId) (number : Nat) (how : Parting) : Act TalkState := do
  discard (finish n p number how)
  pure .ended

/-- End the session that a player has, if he has one. -/
def leave (n : Nested) (p : PlayerId) (how : Parting) : Act Bool := do
  match (← get).sessions.find? p with
  | none => pure false
  | some session => finish n p session.number how

/-! ### Showing a line -/

/-- The first option that some pointers lead to and whose conditions hold, with its name. -/
def firstOpen (n : Nested) (p : PlayerId) (options : Table String TalkOption) :
    List String → Act (Option (String × TalkOption))
  | [] => pure none
  | name :: rest =>
    match options.find? name with
    | none => firstOpen n p options rest
    | some option => do
      if ← allHold n p option.conditions then pure (some (name, option))
      else firstOpen n p options rest

/-- The options that some pointers lead to and whose conditions hold, by name and text. -/
def allOpen (n : Nested) (p : PlayerId) (options : Table String TalkOption) :
    List String → Act (List (String × String))
  | [] => pure []
  | name :: rest =>
    match options.find? name with
    | none => allOpen n p options rest
    | some option => do
      if ← allHold n p option.conditions then
        let text ← option.text.render n p
        pure ((name, text) :: (← allOpen n p options rest))
      else allOpen n p options rest

/-- A session that shows a line and offers replies. -/
def shown (session : Session) (name speaker text : String) (offered : List (String × String)) :
    Session :=
  { session with
    phase := .selecting text offered
    history := session.history ++ [name]
    screen := (offered.map Prod.snd).foldl Screen.offer (session.screen.clear.say speaker text) }

/-- Show a line in a session, unless the session has ended; without replies it ends here. -/
def present (n : Nested) (p : PlayerId) (number : Nat) (name speaker text : String)
    (offered : List (String × String)) : Act TalkState := do
  match (← get).sessions.held? p number with
  | none => pure .ended
  | some session =>
    let session := shown session name speaker text offered
    modify (·.showing p session session.screen.display)
    if offered.isEmpty then conclude n p number .noReply else pure session.state

/-- Go on with the first line that some pointers lead to and whose conditions hold. -/
def advance (n : Nested) (p : PlayerId) (number : Nat) (talk : Conversation)
    (pointers : List String) : Act TalkState := do
  match ← firstOpen n p talk.npcOptions pointers with
  | none => conclude n p number .noLine
  | some (name, line) =>
    Action.fireEach n p line.events
    -- The events may have ended the session, or put another one in its place.
    if (← get).sessions.isCurrent p number then
      let offered ← allOpen n p talk.playerOptions line.pointers
      let speaker ← talk.quester.render n p
      let text ← line.text.render n p
      present n p number name speaker text offered
    else pure .ended

/-! ### What a player does -/

/-- Start a conversation. -/
def start (n : Nested) (p : PlayerId) (id : ObjectId) :
    Act (Except TalkError TalkState) := do
  let e ← get
  match e.packages.get .conversation id with
  | .error err => pure (.error (.notFound err))
  | .ok talk =>
    let name := talk.screen.getD e.defaultScreen
    match e.registry.screen? name with
    | none => pure (.error (.unknownScreen name))
    | some style =>
      if (e.sessions.find? p).isSome then pure (.error (.alreadyActive p))
      else
        let (number, sessions) := e.sessions.start p talk (Screen.ofStyle style)
        Act.changeSessions fun _ => sessions
        .ok <$> advance n p number talk talk.first

/-- Follow a reply, after its events. -/
def follow (n : Nested) (p : PlayerId) (session : Session) (reply : TalkOption) :
    Act TalkState := do
  Action.fireEach n p reply.events
  -- The events may have ended the session, or put another one in its place.
  if (← get).sessions.isCurrent p session.number then
    if reply.pointers.isEmpty then conclude n p session.number .noPointers
    else advance n p session.number session.talk reply.pointers
  else pure .ended

/-- Pick one of the replies on offer, counted from zero. -/
def select (n : Nested) (p : PlayerId) (index : Nat) :
    Act (Except TalkError TalkState) := do
  match (← get).sessions.find? p with
  | none => pure (.error (.noSession p))
  | some session =>
    match session.phase with
    | .resolving => pure (.error (.busy p))
    | .selecting _ offered =>
      match offered[index]? with
      | none => pure (.error (.invalidSelection index offered.length))
      | some (name, _) =>
        Act.changeSessions (·.put p { session with phase := .resolving })
        match session.talk.playerOptions.find? name with
        -- No compiled conversation offers a reply that is not among its options.
        | none => .ok <$> conclude n p session.number .noPointers
        | some reply => .ok <$> follow n p session reply

/-- Turn the page of the screen: whether the screen knows the command. -/
def navigate (p : PlayerId) (command : String) : Act (Except TalkError Bool) := do
  match (← get).sessions.find? p with
  | none => pure (.error (.noSession p))
  | some session =>
    match session.phase with
    | .resolving => pure (.ok false)
    | .selecting _ _ =>
      let (known, screen, frames) := session.screen.navigate command
      modify (·.showing p { session with screen } frames)
      pure (.ok known)

end Questbook.Talks
