/-
Questbook/Line/Basic.lean

An authored line as a stream of arguments.

The first token is the keyword; the others are arguments, and each of them is handed out once.
Positional readers take the first free argument behind the one handed out last; keyed readers
take a free `key:value` argument wherever it stands and leave the position alone.  Readers keep the
line where they left it even when they fail, so that an error can be followed by another reader.
-/
import Questbook.Line.Token

namespace Questbook

/-- An argument and whether a reader has taken it. -/
structure Argument where
  text : String
  taken : Bool
deriving DecidableEq, Repr

/-- A line of a definition while it is read.  Positions count from one; `cursor` is the position
handed out last, zero before the first. -/
structure Line where
  origin : ObjectId
  raw : String
  keyword : String
  arguments : List Argument
  cursor : Nat
deriving DecidableEq, Repr

namespace Line

/-- The line of a definition, if it has tokens. -/
def parse (origin : ObjectId) (raw : String) : Except LineError Line :=
  match tokenize raw with
  | .error fault => .error ⟨origin, fault.index, fault.problem⟩
  | .ok [] => .error ⟨origin, 0, .invalid "instruction is empty"⟩
  | .ok (keyword :: rest) => .ok ⟨origin, raw, keyword, rest.map fun t => ⟨t, false⟩, 0⟩

/-- The package that relative names belong to. -/
def package (l : Line) : String := l.origin.package

/-- The number of tokens, keyword included. -/
def length (l : Line) : Nat := l.arguments.length + 1

/-- Whether the line is its keyword alone. -/
def isBare (l : Line) : Bool := l.arguments.isEmpty

/-- The argument handed out last. -/
def current? (l : Line) : Option String :=
  if l.cursor = 0 then none else (l.arguments[l.cursor - 1]?).map Argument.text

/-- The arguments that no reader has taken. -/
def unread (l : Line) : List String :=
  (l.arguments.filter fun a => !a.taken).map Argument.text

/-- An error at a token of the line. -/
def errorAt (l : Line) (index : Nat) (problem : LineProblem) : LineError :=
  ⟨l.origin, index, problem⟩

/-- An error at the token handed out last. -/
def errorHere (l : Line) (problem : LineProblem) : LineError := l.errorAt l.cursor problem

/-- Take the first free argument that `p` accepts, given its position and text.  The answer is the
position, the text and the arguments afterwards; `i` is the position of the first one. -/
def takeFirst (p : Nat → String → Bool) (i : Nat) :
    List Argument → Option (Nat × String × List Argument)
  | [] => none
  | a :: rest =>
    if !a.taken && p i a.text then some (i, a.text, { a with taken := true } :: rest)
    else (takeFirst p (i + 1) rest).map fun r => (r.1, r.2.1, a :: r.2.2)

/-- Where a search for a free argument that `p` accepts comes to its end: at the argument that it
finds, or behind the last one; `i` is the position of the first one. -/
def stopFrom (p : Nat → String → Bool) (i : Nat) : List Argument → Nat
  | [] => i
  | a :: rest => if !a.taken && p i a.text then i else stopFrom p (i + 1) rest

/-- A reader of arguments. -/
abbrev Reader (α : Type) := ExceptT LineError (StateM Line) α

/-- The answer of a reader on a line and the line afterwards. -/
def read {α : Type} (l : Line) (r : Reader α) : Except LineError α × Line := (ExceptT.run r).run l

/-- Fail at the token handed out last. -/
def failHere {α : Type} (problem : LineProblem) : Reader α := do
  throw ((← get).errorHere problem)

/-! ### Positional readers -/

/-- The line with its next positional argument taken, and that argument. -/
def advance? (l : Line) : Option (String × Line) :=
  (takeFirst (fun i _ => l.cursor < i) 1 l.arguments).map fun r =>
    (r.2.1, { l with arguments := r.2.2, cursor := r.1 })

/-- The position at which the search for the next positional argument comes to its end. -/
def stop (l : Line) : Nat := stopFrom (fun i _ => l.cursor < i) 1 l.arguments

/-- The next positional argument. -/
def next : Reader String := do
  let l ← get
  match l.advance? with
  | some (token, l) =>
    set l
    pure token
  | none => throw (l.errorAt l.stop .missingArgument)

/-- The next argument read as something else, or an error that names what was expected. -/
def nextAs {α : Type} (expected : String) (f : String → Option α) : Reader α := do
  let token ← next
  match f token with
  | some a => pure a
  | none => failHere (.invalidNumber token expected)

/-- The next argument split at commas. -/
def nextList : Reader (List String) := Text.listed <$> next

/-- The positional arguments that are left, `n` of them at most. -/
def drain : Nat → Line → List String × Line
  | 0, l => ([], l)
  | n + 1, l =>
    match l.advance? with
    | some (token, l) =>
      let r := drain n l
      (token :: r.1, r.2)
    | none => ([], l)

/-- All positional arguments that are left, with spaces between them; at least one. -/
def rest : Reader String := do
  let l ← get
  match drain l.arguments.length l with
  | ([], _) => throw (l.errorAt l.length .missingArgument)
  | (tokens, l) =>
    set l
    pure (Text.joined " " tokens)

/-! ### Keyed readers -/

/-- The value of a `key:value` token, if it has that key and a value. -/
def valueOf? (key token : String) : Option String :=
  match Text.cut ':' token with
  | some (head, value) => if value ≠ "" ∧ Text.sameFolded head key then some value else none
  | none => none

/-- The value of the first free argument with a key. -/
def optional (key : String) : Reader (Option String) := do
  let l ← get
  match takeFirst (fun _ token => (valueOf? key token).isSome) 1 l.arguments with
  | some (_, token, arguments) =>
    set { l with arguments }
    pure (valueOf? key token)
  | none => pure none

/-- The value of a key split at commas; nothing where the key is missing. -/
def optionalList (key : String) : Reader (List String) := do
  match ← optional key with
  | some value => pure (Text.listed value)
  | none => pure []

/-- Whether a word stands among the free arguments; it is taken then. -/
def flag (word : String) : Reader Bool := do
  let l ← get
  match takeFirst (fun _ token => Text.sameFolded token word) 1 l.arguments with
  | some (_, _, arguments) =>
    set { l with arguments }
    pure true
  | none => pure false

end Line

end Questbook
