/-
Questbook/Text/Parser.lean

Readers of text formats.  A `Parser` takes what it wants from the front of a list of characters
and answers with the rest, or fails; `<|>` tries the second reader where the first one failed.
Repetition stops where its reader fails.  A reader that is repeated takes a character or more each
time, so the length of the text bounds how often, and `many_of_progress` says that the bound never
shows.
-/
import Questbook.Text.Words

namespace Questbook.Text

/-- A reader of a value from the front of a text. -/
abbrev Parser (α : Type) := StateT (List Char) Option α

namespace Parser

variable {α β : Type}

/-- The next character without taking it. -/
def peek? : Parser (Option Char) := fun cs => some (cs.head?, cs)

/-- Take the next character if `p` accepts it. -/
def satisfy (p : Char → Bool) : Parser Char
  | [] => none
  | c :: rest => if p c then some (c, rest) else none

/-- Take the character `c`. -/
def char (c : Char) : Parser Unit
  | [] => none
  | c' :: rest => if c' = c then some ((), rest) else none

/-- Take the characters of a word, one after another. -/
def word (w : String) : Parser Unit := w.toList.forM char

/-- Take the longest run of characters that `p` accepts. -/
def run (p : Char → Bool) : Parser (List Char) := fun cs => some (cs.takeWhile p, cs.dropWhile p)

/-- Take the longest run of characters that `p` accepts, at least one. -/
def run1 (p : Char → Bool) : Parser (List Char) := do
  let cs ← run p
  if cs.isEmpty then failure else pure cs

/-- Take between `low` and `high` characters that `p` accepts, as many as there are. -/
def upTo (p : Char → Bool) (low high : Nat) : Parser (List Char) := fun cs =>
  let taken := (cs.take high).takeWhile p
  if taken.length < low then none else some (taken, cs.drop taken.length)

/-- The value of a reader, or nothing where it fails. -/
def optional? (p : Parser α) : Parser (Option α) := (some <$> p) <|> pure none

/-- The values of a reader as often as it succeeds, `n` times at most. -/
def manyWithin (p : Parser α) : Nat → Parser (List α)
  | 0, cs => some ([], cs)
  | n + 1, cs =>
    match p cs with
    | none => some ([], cs)
    | some (a, rest) => (manyWithin p n rest).map fun r => (a :: r.1, r.2)

/-- The values of a reader as often as it succeeds.  There are at most as many as there are
characters, which holds back no reader that takes one or more each time. -/
def many (p : Parser α) : Parser (List α) := fun cs => manyWithin p cs.length cs

/-- One or more values with a separator between neighbours. -/
def sepBy1 (p : Parser α) (sep : Parser β) : Parser (List α) := do
  let first ← p
  let others ← many (sep *> p)
  pure (first :: others)

/-- Succeed at the end of the text only. -/
def atEnd : Parser Unit
  | [] => some ((), [])
  | _ :: _ => none

/-- The value of a reader that takes the whole text. -/
def all? (p : Parser α) (cs : List Char) : Option α :=
  match p cs with
  | some (a, []) => some a
  | _ => none

/-- The value of a hexadecimal digit. -/
def hexValue? (c : Char) : Option Nat :=
  if '0' ≤ c ∧ c ≤ '9' then some (c.toNat - 48)
  else if 'a' ≤ c ∧ c ≤ 'f' then some (c.toNat - 87)
  else if 'A' ≤ c ∧ c ≤ 'F' then some (c.toNat - 55)
  else none

/-- The number that `n` hexadecimal digits denote. -/
def hex : Nat → Parser Nat
  | 0 => pure 0
  | n + 1 => do
    let high ← hex n
    let c ← satisfy fun c => (hexValue? c).isSome
    pure (16 * high + (hexValue? c).getD 0)

/-! ### Repetition of readers that make progress -/

theorem manyWithin_of_progress {p : Parser α}
    (hp : ∀ cs a rest, p cs = some (a, rest) → rest.length < cs.length) {m n : Nat}
    {cs : List Char} (hm : cs.length ≤ m) (hn : cs.length ≤ n) :
    manyWithin p m cs = manyWithin p n cs := by
  induction m generalizing n cs with
  | zero =>
    cases n with
    | zero => rfl
    | succ n =>
      have h : p cs = none := by
        refine Option.eq_none_iff_forall_ne_some.2 fun r hr => ?_
        have := hp cs r.1 r.2 hr
        omega
      simp [manyWithin, h]
  | succ m ih =>
    cases h : p cs with
    | none => cases n <;> simp [manyWithin, h]
    | some r =>
      have hr := hp cs r.1 r.2 h
      obtain - | n := n
      · omega
      · simp only [manyWithin, h]
        rw [@ih n r.2 (by omega) (by omega)]

theorem many_of_progress {p : Parser α}
    (hp : ∀ cs a rest, p cs = some (a, rest) → rest.length < cs.length) (cs : List Char) :
    many p cs =
      match p cs with
      | none => some ([], cs)
      | some (a, rest) => (many p rest).map fun r => (a :: r.1, r.2) := by
  unfold many
  rw [manyWithin_of_progress hp (Nat.le_refl _) (Nat.le_succ _), manyWithin]
  cases h : p cs with
  | none => rfl
  | some r =>
    have hr := hp cs r.1 r.2 h
    simp only
    rw [manyWithin_of_progress hp (n := r.2.length) (by omega) (Nat.le_refl _)]

end Parser

end Questbook.Text
