/-
Questbook/Error.lean

What can go wrong, and how it is told.

Errors are causes: each type lists what may happen at one stage, and `message` words it.  Reading a
line fails with a `LineError`, looking a name up with a `NotFound`, building a definition with a
`BuildError` that may be either; these reject one definition.  An `EvalError` happens
while a definition runs for a player and never leaves the engine's recovery: a condition that
fails counts as false, an event that fails is skipped, a variable that fails renders empty.
-/
import Questbook.Ident

namespace Questbook

/-! ### Reading a line -/

/-- What is wrong with a line. -/
inductive LineProblem where
  | missingArgument
  | invalidNumber (token expected : String)
  | invalidChoice (token : String) (allowed : List String)
  | unterminatedQuote
  | danglingEscape
  | invalidLocation (token reason : String)
  | invalid (text : String)
deriving DecidableEq, Repr

/-- The wording of a problem. -/
def LineProblem.message : LineProblem → String
  | missingArgument => "missing argument"
  | invalidNumber token expected => "'" ++ token ++ "' is not a valid " ++ expected
  | invalidChoice token allowed =>
    "unknown value '" ++ token ++ "', allowed are: " ++ Text.joined ", " allowed
  | unterminatedQuote => "unterminated quote"
  | danglingEscape => "escape character at end of line"
  | invalidLocation token reason => "invalid location '" ++ token ++ "': " ++ reason
  | invalid text => text

/-- A problem of the line of a definition, at a token; the keyword is token zero. -/
structure LineError where
  origin : ObjectId
  index : Nat
  problem : LineProblem
deriving DecidableEq, Repr

/-- The wording of an error in a line. -/
def LineError.message (e : LineError) : String :=
  e.origin.text ++ " (token " ++ toString e.index ++ "): " ++ e.problem.message

/-! ### Looking a name up -/

/-- Why a name does not lead to a definition. -/
inductive Absence where
  | unknownPackage
  | unknownName
  | wrongKind (actual : Kind)
  /-- The definition is being built; the path leads from it back to itself. -/
  | cycle (path : List ObjectId)
  | broken
deriving DecidableEq, Repr

/-- The wording of a reason. -/
def Absence.message : Absence → String
  | unknownPackage => "package does not exist"
  | unknownName => "no such definition"
  | wrongKind actual => "the name belongs to a " ++ actual.word
  | cycle path => "reference cycle " ++ Text.joined " -> " (path.map ObjectId.text)
  | broken => "the definition failed to load"

/-- A name that does not lead to a definition of the wanted kind. -/
structure NotFound where
  id : ObjectId
  kind : Kind
  reason : Absence
deriving DecidableEq, Repr

/-- The wording of a failed look-up. -/
def NotFound.message (e : NotFound) : String :=
  e.kind.word ++ " '" ++ e.id.text ++ "' not found: " ++ e.reason.message

/-! ### Building a definition -/

/-- Why a definition cannot be built. -/
inductive BuildError where
  | unknownKeyword (kind : Kind) (keyword : String)
  | parse (e : LineError)
  | notFound (e : NotFound)
  | invalid (text : String)
  | featureUnavailable (feature : String)
deriving DecidableEq, Repr

/-- The wording of a missing integration. -/
def unavailableMessage (feature : String) : String := feature ++ " integration is not available"

/-- The wording of a failed construction. -/
def BuildError.message : BuildError → String
  | unknownKeyword kind keyword => "unknown " ++ kind.word ++ " type '" ++ keyword ++ "'"
  | parse e => e.message
  | notFound e => e.message
  | invalid text => text
  | featureUnavailable feature => unavailableMessage feature

/-- A keyword or a screen that cannot be registered. -/
inductive RegisterError where
  | duplicate (kind : Kind) (keyword : String)
  | duplicateScreen (name : String)
deriving DecidableEq, Repr

/-- The wording of a refused registration. -/
def RegisterError.message : RegisterError → String
  | duplicate kind keyword => kind.word ++ " type '" ++ keyword ++ "' is already registered"
  | duplicateScreen name => "conversation IO '" ++ name ++ "' is already registered"

/-! ### Running for a player -/

/-- A failure while a definition runs for a player. -/
inductive EvalError where
  | playerOffline (player : PlayerId)
  | featureUnavailable (feature : String)
  | notANumber (id : ObjectId) (value : String)
  | notFound (e : NotFound)
  | world (text : String)
deriving DecidableEq, Repr

/-- The wording of a failure while running. -/
def EvalError.message : EvalError → String
  | playerOffline player => "player '" ++ player.text ++ "' is offline"
  | featureUnavailable feature => unavailableMessage feature
  | notANumber id value =>
    "variable '" ++ id.text ++ "' resolved to '" ++ value ++ "', which is not a number"
  | notFound e => e.message
  | world text => "world error: " ++ text

/-- A refused operation on an objective. -/
inductive ProgressError where
  | alreadyActive (player : PlayerId) (objective : ObjectId)
  | notActive (player : PlayerId) (objective : ObjectId)
  | notFound (e : NotFound)
deriving DecidableEq, Repr

/-- The wording of a refused operation on an objective. -/
def ProgressError.message : ProgressError → String
  | alreadyActive player objective =>
    "objective '" ++ objective.text ++ "' is already active for player '" ++ player.text ++ "'"
  | notActive player objective =>
    "objective '" ++ objective.text ++ "' is not active for player '" ++ player.text ++ "'"
  | notFound e => e.message

/-- A refused step of a conversation. -/
inductive TalkError where
  | alreadyActive (player : PlayerId)
  | noSession (player : PlayerId)
  | busy (player : PlayerId)
  | invalidSelection (index available : Nat)
  | unknownScreen (name : String)
  | notFound (e : NotFound)
deriving DecidableEq, Repr

/-- The wording of a refused step of a conversation. -/
def TalkError.message : TalkError → String
  | alreadyActive player => "player '" ++ player.text ++ "' is already in a conversation"
  | noSession player => "player '" ++ player.text ++ "' is not in a conversation"
  | busy player => "player '" ++ player.text ++ "' is already resolving a choice"
  | invalidSelection index available =>
    "invalid option index " ++ toString index ++ ", " ++ toString available ++
      " options are offered"
  | unknownScreen name => "conversation IO '" ++ name ++ "' is not registered"
  | notFound e => e.message

end Questbook
