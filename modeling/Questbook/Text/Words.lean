/-
Questbook/Text/Words.lean

Cutting text into pieces.  Everything is a function on lists of characters, so that it can be
reasoned about by recursion, with a thin version on `String` beside it.  Upper and lower case are
told apart for ASCII letters only: keywords, keys and entity names are ASCII, and a letter
outside ASCII equals itself alone.
-/
import Questbook.Text.Blank

namespace Questbook.Text

/-! ### Cutting at a character -/

/-- What stands before and after the first `sep`, if there is one. -/
def cutChars (sep : Char) : List Char → Option (List Char × List Char)
  | [] => none
  | c :: rest =>
    if c = sep then some ([], rest)
    else (cutChars sep rest).map fun p => (c :: p.1, p.2)

/-- The pieces between the occurrences of `sep`; text without `sep` is one piece. -/
def piecesChars (sep : Char) : List Char → List (List Char)
  | [] => [[]]
  | c :: rest =>
    if c = sep then [] :: piecesChars sep rest
    else
      match piecesChars sep rest with
      | [] => [[c]]
      | p :: ps => (c :: p) :: ps

/-- Drop blanks at both ends. -/
def trimChars (cs : List Char) : List Char :=
  ((cs.dropWhile isBlank).reverse.dropWhile isBlank).reverse

/-- What stands before and after the first `sep` of a string. -/
def cut (sep : Char) (s : String) : Option (String × String) :=
  (cutChars sep s.toList).map fun p => (String.ofList p.1, String.ofList p.2)

/-- The pieces of a string between the occurrences of `sep`. -/
def pieces (sep : Char) (s : String) : List String :=
  (piecesChars sep s.toList).map String.ofList

/-- A string without the blanks at its ends. -/
def trim (s : String) : String := String.ofList (trimChars s.toList)

/-- The entries of a comma separated list: trimmed, the empty ones left out. -/
def listed (s : String) : List String :=
  ((pieces ',' s).map trim).filter (· ≠ "")

/-- The strings one after another with `sep` between neighbours. -/
def joined (sep : String) (l : List String) : String := sep.intercalate l

/-- Replace every `a` by `b`. -/
def substitute (a b : Char) (s : String) : String :=
  String.ofList (s.toList.map fun c => if c = a then b else c)

/-! ### Letter case -/

/-- An ASCII capital as its small letter, anything else as itself. -/
def lowerChar (c : Char) : Char :=
  if 'A' ≤ c ∧ c ≤ 'Z' then Char.ofNat (c.toNat + 32) else c

/-- A capital is one of 26. -/
theorem exists_of_capital {c : Char} (h : 'A' ≤ c ∧ c ≤ 'Z') :
    ∃ n < 26, c = Char.ofNat (n + 65) := by
  have hlow : 65 ≤ c.toNat := h.1
  have hhigh : c.toNat ≤ 90 := h.2
  refine ⟨c.toNat - 65, by omega, ?_⟩
  rw [Nat.sub_add_cancel hlow, Char.ofNat_toNat]

/-- A string with its ASCII capitals made small. -/
def lower (s : String) : String := String.ofList (s.toList.map lowerChar)

/-- Whether two strings agree up to the case of ASCII letters. -/
def sameFolded (a b : String) : Bool := lower a == lower b

/-! ### Order -/

/-- The order of strings by their characters, which is the order of their UTF-8 bytes. -/
def atMost (a b : String) : Bool := !decide (b < a)

/-- A list of strings in ascending order. -/
def sorted (l : List String) : List String := l.mergeSort atMost

/-! ### What the cuts keep -/

theorem cutChars_eq_some {sep : Char} {cs a b : List Char} (h : cutChars sep cs = some (a, b)) :
    cs = a ++ sep :: b ∧ sep ∉ a := by
  induction cs generalizing a with
  | nil => simp [cutChars] at h
  | cons c rest ih =>
    rw [cutChars] at h
    split at h
    · next hc =>
      obtain ⟨rfl, rfl⟩ : [] = a ∧ rest = b := by simpa using h
      simp [hc]
    · next hc =>
      obtain ⟨p, hp, he⟩ := Option.map_eq_some_iff.1 h
      obtain ⟨rfl, rfl⟩ : c :: p.1 = a ∧ p.2 = b := by simpa using he
      obtain ⟨hr, hm⟩ := ih (a := p.1) hp
      exact ⟨by rw [hr, List.cons_append], by simp [hm, Ne.symm hc]⟩

theorem cutChars_append {sep : Char} {a : List Char} (b : List Char) (h : sep ∉ a) :
    cutChars sep (a ++ sep :: b) = some (a, b) := by
  induction a with
  | nil => simp [cutChars]
  | cons c rest ih =>
    obtain ⟨hc, hr⟩ : sep ≠ c ∧ sep ∉ rest := by simpa using h
    simp [cutChars, Ne.symm hc, ih hr]

theorem piecesChars_ne_nil (sep : Char) (cs : List Char) : piecesChars sep cs ≠ [] := by
  cases cs with
  | nil => simp [piecesChars]
  | cons c rest =>
    rw [piecesChars]
    split
    · simp
    · split <;> simp

/-- A character that is not the separator goes in front of the first piece. -/
theorem piecesChars_cons_of_ne {sep c : Char} (h : c ≠ sep) (cs : List Char) :
    ∃ piece pieces, piecesChars sep cs = piece :: pieces ∧
      piecesChars sep (c :: cs) = (c :: piece) :: pieces := by
  obtain ⟨piece, pieces, hcs⟩ := List.exists_cons_of_ne_nil (piecesChars_ne_nil sep cs)
  exact ⟨piece, pieces, hcs, by simp [piecesChars, h, hcs]⟩

/-- What stands before a separator is a piece. -/
theorem piecesChars_append {sep : Char} {a : List Char} (b : List Char) (h : sep ∉ a) :
    piecesChars sep (a ++ sep :: b) = a :: piecesChars sep b := by
  induction a with
  | nil => simp [piecesChars]
  | cons c a ih =>
    obtain ⟨hc, ha⟩ : sep ≠ c ∧ sep ∉ a := by simpa using h
    simp [piecesChars, Ne.symm hc, ih ha]

theorem not_mem_of_mem_piecesChars {sep : Char} {cs piece : List Char}
    (h : piece ∈ piecesChars sep cs) : sep ∉ piece := by
  induction cs generalizing piece with
  | nil => simp_all [piecesChars]
  | cons c cs ih =>
    by_cases hc : c = sep
    · simp only [piecesChars, hc, if_true, List.mem_cons] at h
      rcases h with rfl | h
      · exact List.not_mem_nil
      · exact ih h
    · obtain ⟨first, pieces, hcs, hcons⟩ := piecesChars_cons_of_ne hc cs
      rw [hcons] at h
      rw [hcs] at ih
      rcases List.mem_cons.1 h with rfl | h
      · have hfirst : sep ∉ first := ih List.mem_cons_self
        simp [hfirst, Ne.symm hc]
      · exact ih (List.mem_cons_of_mem _ h)

end Questbook.Text
