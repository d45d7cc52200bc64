/-
Questbook/Line/Token.lean

The tokens of an authored line.

Tokens are separated by blanks.  Between two quotes blanks belong to the token, and a backslash
takes the character after it as it is, inside quotes and outside.  Quotes may begin and end within
a token, and a pair of quotes alone is an empty token.
-/
import Questbook.Error
import Questbook.Text.Blank

namespace Questbook.Line

/-- Why a line has no tokens: how many were complete before the fault, and the fault. -/
structure TokenFault where
  index : Nat
  problem : LineProblem
deriving DecidableEq, Repr

/-- The tokens of the rest of a line.  `complete` counts the tokens before, `begun` holds the token
that is being read, last character first, and `quoted` tells whether a quote is open. -/
def tokensFrom (complete : Nat) (quoted : Bool) (begun : Option (List Char)) :
    List Char → Except TokenFault (List String)
  | [] =>
    if quoted then .error ⟨complete, .unterminatedQuote⟩
    else .ok (begun.toList.map fun t => String.ofList t.reverse)
  | '\\' :: [] => .error ⟨complete, .danglingEscape⟩
  | '\\' :: c :: rest => tokensFrom complete quoted (some (c :: begun.getD [])) rest
  | '"' :: rest => tokensFrom complete (!quoted) (some (begun.getD [])) rest
  | c :: rest =>
    if Text.isBlank c ∧ ¬ quoted then
      match begun with
      | none => tokensFrom complete quoted none rest
      | some t =>
        (tokensFrom (complete + 1) quoted none rest).map (String.ofList t.reverse :: ·)
    else tokensFrom complete quoted (some (c :: begun.getD [])) rest

/-- The tokens of a line. -/
def tokenize (s : String) : Except TokenFault (List String) := tokensFrom 0 false none s.toList

end Questbook.Line
