/-
Questbook/Proofs/Line/Grammar.lean

The grammar of authored lines, and that `tokenize` accepts it and no more.

A token is written as pieces: plain characters, characters behind a backslash, and quoted segments,
in which a backslash works as well.  `Spaced` are the lines: tokens with blanks between them, and
blanks around them if one likes.  `Faulty` are the texts that are none, because a token among them
does not come to an end (`Unfinished`).

Each text is a line or faulty (`Spaced.total`), which is shown of the grammar alone, by looking for
the first blank that is neither quoted nor escaped.  And what the tokenizer makes of either is known
(`Spaced.reads`, `Faulty.reads`), since it does with each piece what the piece stands for,
whatever it has begun with.  So it tells the one from the other.
-/
import Questbook.Line.Token
import Questbook.Text.Words

namespace Questbook.Line

/-! ### Tokens -/

/-- What may stand between two quotes, and the characters it denotes. -/
inductive Quoted : List Char → List Char → Prop
  | nil : Quoted [] []
  | escape (c : Char) {q m : List Char} (h : Quoted q m) : Quoted ('\\' :: c :: q) (c :: m)
  | plain {c : Char} (hquote : c ≠ '"') (hescape : c ≠ '\\') {q m : List Char} (h : Quoted q m) :
      Quoted (c :: q) (c :: m)

/-- A piece of a token, and the characters it denotes. -/
inductive Piece : List Char → List Char → Prop
  | plain {c : Char} (hblank : Text.isBlank c = false) (hquote : c ≠ '"') (hescape : c ≠ '\\') :
      Piece [c] [c]
  | escape (c : Char) : Piece ['\\', c] [c]
  | quoted {q m : List Char} (h : Quoted q m) : Piece ('"' :: (q ++ ['"'])) m

/-- Pieces one after another, none at all included. -/
inductive Pieces : List Char → List Char → Prop
  | nil : Pieces [] []
  | cons {s m s' m' : List Char} (h : Piece s m) (h' : Pieces s' m') : Pieces (s ++ s') (m ++ m')

/-- A token is written as one or more pieces. -/
inductive Token : List Char → String → Prop
  | pieces {s m s' m' : List Char} (h : Piece s m) (h' : Pieces s' m') :
      Token (s ++ s') (String.ofList (m ++ m'))

/-! ### Lines -/

/-- Nothing but blanks. -/
def Blank (s : List Char) : Prop := ∀ c ∈ s, Text.isBlank c = true

/-- A line and its tokens: there is a blank at least between two tokens, and there may be blanks
before and after them. -/
inductive Spaced : List Char → List String → Prop
  | blank {b : List Char} (hb : Blank b) : Spaced b []
  | last {b s : List Char} {t : String} (hb : Blank b) (h : Token s t) : Spaced (b ++ s) [t]
  | cons {b s rest : List Char} {c : Char} {t : String} {ts : List String} (hb : Blank b)
      (h : Token s t) (hc : Text.isBlank c = true) (hrest : Spaced rest ts) :
      Spaced (b ++ s ++ c :: rest) (t :: ts)

/-- A token that does not come to an end: a backslash takes nothing, or a quote stays open. -/
inductive Unfinished : List Char → LineProblem → Prop
  | escape {s m : List Char} (h : Pieces s m) : Unfinished (s ++ ['\\']) .danglingEscape
  | quote {s m q m' : List Char} (h : Pieces s m) (hq : Quoted q m') :
      Unfinished (s ++ '"' :: q) .unterminatedQuote
  | quotedEscape {s m q m' : List Char} (h : Pieces s m) (hq : Quoted q m') :
      Unfinished (s ++ '"' :: (q ++ ['\\'])) .danglingEscape

/-- Tokens with blanks behind each of them, so many, and then one that does not come to an end. -/
inductive Faulty : List Char → Nat → LineProblem → Prop
  | here {b s : List Char} {problem : LineProblem} (hb : Blank b) (h : Unfinished s problem) :
      Faulty (b ++ s) 0 problem
  | behind {b s rest : List Char} {c : Char} {t : String} {i : Nat} {problem : LineProblem}
      (hb : Blank b) (h : Token s t) (hc : Text.isBlank c = true)
      (hrest : Faulty rest i problem) : Faulty (b ++ s ++ c :: rest) (i + 1) problem

/-! ### Each text is a line or faulty -/

/-- What is read behind an open quote: up to the next quote, to the end, or to a backslash there. -/
theorem Quoted.total (cs : List Char) :
    (∃ q m rest, Quoted q m ∧ cs = q ++ '"' :: rest) ∨ (∃ m, Quoted cs m) ∨
      ∃ q m, Quoted q m ∧ cs = q ++ ['\\'] := by
  match cs with
  | [] => exact .inr (.inl ⟨[], .nil⟩)
  | c :: rest =>
    by_cases hescape : c = '\\'
    · subst hescape
      cases rest with
      | nil => exact .inr (.inr ⟨[], [], .nil, rfl⟩)
      | cons d rest =>
        rcases Quoted.total rest with ⟨q, m, rest', h, rfl⟩ | ⟨m, h⟩ | ⟨q, m, h, rfl⟩
        · exact .inl ⟨_, _, rest', h.escape d, rfl⟩
        · exact .inr (.inl ⟨_, h.escape d⟩)
        · exact .inr (.inr ⟨_, _, h.escape d, rfl⟩)
    · by_cases hquote : c = '"'
      · subst hquote
        exact .inl ⟨[], [], rest, .nil, rfl⟩
      · rcases Quoted.total rest with ⟨q, m, rest', h, rfl⟩ | ⟨m, h⟩ | ⟨q, m, h, rfl⟩
        · exact .inl ⟨_, _, rest', h.plain hquote hescape, rfl⟩
        · exact .inr (.inl ⟨_, h.plain hquote hescape⟩)
        · exact .inr (.inr ⟨_, _, h.plain hquote hescape, rfl⟩)
termination_by cs.length

/-- How far a text can be read as pieces. -/
inductive Cut (cs : List Char) : Prop
  | whole {m : List Char} (h : Pieces cs m)
  | blank {s m rest : List Char} {c : Char} (h : Pieces s m) (hc : Text.isBlank c = true)
      (hcs : cs = s ++ c :: rest)
  | unfinished {problem : LineProblem} (h : Unfinished cs problem)

section

variable {s m cs rest : List Char} {c : Char} {problem : LineProblem}

theorem Unfinished.prepend (h : Piece s m) (hrest : Unfinished rest problem) :
    Unfinished (s ++ rest) problem := by
  cases hrest with
  | escape hs =>
    rw [← List.append_assoc]
    exact .escape (.cons h hs)
  | quote hs hq =>
    rw [← List.append_assoc]
    exact .quote (.cons h hs) hq
  | quotedEscape hs hq =>
    rw [← List.append_assoc]
    exact .quotedEscape (.cons h hs) hq

theorem Cut.prepend (h : Piece s m) (hrest : Cut rest) : Cut (s ++ rest) := by
  cases hrest with
  | whole hs => exact .whole (.cons h hs)
  | blank hs hc hcs =>
    subst hcs
    exact .blank (.cons h hs) hc (List.append_assoc ..).symm
  | unfinished hrest => exact .unfinished (hrest.prepend h)

end

/-- A text can be read as pieces to its end, to a blank that belongs to none, or to where a piece
does not come to an end. -/
theorem Cut.total (cs : List Char) : Cut cs := by
  match cs with
  | [] => exact .whole .nil
  | c :: rest =>
    by_cases hescape : c = '\\'
    · subst hescape
      cases rest with
      | nil => exact .unfinished (.escape .nil)
      | cons d rest => exact (Cut.total rest).prepend (.escape d)
    · by_cases hquote : c = '"'
      · subst hquote
        rcases Quoted.total rest with ⟨q, m, rest', h, rfl⟩ | ⟨m, h⟩ | ⟨q, m, h, rfl⟩
        · have hcut := (Cut.total rest').prepend (.quoted h)
          rwa [List.cons_append, List.append_assoc] at hcut
        · exact .unfinished (.quote .nil h)
        · exact .unfinished (.quotedEscape .nil h)
      · cases hblank : Text.isBlank c with
        | true => exact .blank .nil hblank rfl
        | false => exact (Cut.total rest).prepend (.plain hblank hquote hescape)
termination_by cs.length

section

variable {s b m cs rest : List Char} {c : Char} {problem : LineProblem}

/-- Pieces that are not empty make a token. -/
theorem Pieces.exists_token (h : Pieces s m) (hs : s ≠ []) : ∃ t, Token s t := by
  cases h with
  | nil => exact absurd rfl hs
  | cons h h' => exact ⟨_, .pieces h h'⟩

theorem Blank.cons (hc : Text.isBlank c = true) (hb : Blank b) : Blank (c :: b) := by
  intro d hd
  rcases List.mem_cons.1 hd with rfl | hd
  · exact hc
  · exact hb d hd

theorem Blank.nil : Blank [] := nofun

theorem Spaced.blank_cons {ts : List String} (hc : Text.isBlank c = true) (h : Spaced rest ts) :
    Spaced (c :: rest) ts := by
  cases h with
  | blank hb => exact .blank (hb.cons hc)
  | last hb h => exact .last (hb.cons hc) h
  | cons hb h hd hrest => exact .cons (hb.cons hc) h hd hrest

theorem Faulty.blank_cons {i : Nat} (hc : Text.isBlank c = true) (h : Faulty rest i problem) :
    Faulty (c :: rest) i problem := by
  cases h with
  | here hb h => exact .here (hb.cons hc) h
  | behind hb h hd hrest => exact .behind (hb.cons hc) h hd hrest

end

/-- Each text is a line, or faulty. -/
theorem Spaced.total (cs : List Char) :
    (∃ ts, Spaced cs ts) ∨ ∃ i problem, Faulty cs i problem := by
  match cs with
  | [] => exact .inl ⟨[], .blank .nil⟩
  | c :: rest =>
    cases hc : Text.isBlank c with
    | true =>
      rcases Spaced.total rest with ⟨ts, h⟩ | ⟨i, problem, h⟩
      · exact .inl ⟨ts, h.blank_cons hc⟩
      · exact .inr ⟨i, problem, h.blank_cons hc⟩
    | false =>
      cases Cut.total (c :: rest) with
      | whole h =>
        obtain ⟨t, ht⟩ := h.exists_token (List.cons_ne_nil _ _)
        exact .inl ⟨[t], .last .nil ht⟩
      | unfinished h => exact .inr ⟨0, _, .here .nil h⟩
      | @blank s m rest' d h hd hcs =>
        -- The text does not begin with a blank, so there is a token before this one.
        have hs : s ≠ [] := by
          rintro rfl
          cases hcs
          cases hc.symm.trans hd
        obtain ⟨t, ht⟩ := h.exists_token hs
        have hshorter : rest'.length < (c :: rest).length := by
          rw [hcs, List.length_append, List.length_cons]
          omega
        rw [hcs]
        rcases Spaced.total rest' with ⟨ts, hrest⟩ | ⟨i, problem, hrest⟩
        · exact .inl ⟨t :: ts, .cons .nil ht hd hrest⟩
        · exact .inr ⟨i + 1, problem, .behind .nil ht hd hrest⟩
termination_by cs.length
decreasing_by
  · exact hshorter
  · exact Nat.lt_succ_self _

/-! ### What the tokenizer makes of them -/

section

variable {n : Nat} {quoted : Bool} {begun : Option (List Char)} {s b m cs rest : List Char}
variable {c : Char} {problem : LineProblem}

theorem tokensFrom_dangling : tokensFrom n quoted begun ['\\'] = .error ⟨n, .danglingEscape⟩ := rfl

theorem tokensFrom_escape : tokensFrom n quoted begun ('\\' :: c :: rest) =
    tokensFrom n quoted (some (c :: begun.getD [])) rest := rfl

theorem tokensFrom_quote : tokensFrom n quoted begun ('"' :: rest) =
    tokensFrom n (!quoted) (some (begun.getD [])) rest := rfl

/-- A character that is neither a quote nor a backslash. -/
theorem tokensFrom_cons (hquote : c ≠ '"') (hescape : c ≠ '\\') :
    tokensFrom n quoted begun (c :: rest) =
      if Text.isBlank c = true ∧ ¬ quoted = true then
        match begun with
        | none => tokensFrom n quoted none rest
        | some t => (tokensFrom (n + 1) quoted none rest).map (String.ofList t.reverse :: ·)
      else tokensFrom n quoted (some (c :: begun.getD [])) rest := by
  conv => lhs; unfold tokensFrom
  split
  · contradiction
  · cases ‹_ = _›
    contradiction
  · cases ‹_ = _›
    contradiction
  · cases ‹_ = _›
    contradiction
  · rename_i heq
    cases heq
    rfl

/-- Inside quotes a character is added to the token. -/
theorem tokensFrom_quoted (hquote : c ≠ '"') (hescape : c ≠ '\\') :
    tokensFrom n true begun (c :: rest) =
      tokensFrom n true (some (c :: begun.getD [])) rest := by
  rw [tokensFrom_cons hquote hescape]
  exact if_neg fun h => h.2 rfl

/-- A plain character is added to the token. -/
theorem tokensFrom_plain (hblank : Text.isBlank c = false) (hquote : c ≠ '"') (hescape : c ≠ '\\') :
    tokensFrom n quoted begun (c :: rest) =
      tokensFrom n quoted (some (c :: begun.getD [])) rest := by
  rw [tokensFrom_cons hquote hescape, hblank]
  exact if_neg fun h => absurd h.1 Bool.false_ne_true

/-- A blank ends a token, if one was begun. -/
theorem tokensFrom_blank (hblank : Text.isBlank c = true) :
    tokensFrom n false begun (c :: rest) =
      match begun with
      | none => tokensFrom n false none rest
      | some t => (tokensFrom (n + 1) false none rest).map (String.ofList t.reverse :: ·) := by
  have hquote : c ≠ '"' := by
    rintro rfl
    cases hblank
  have hescape : c ≠ '\\' := by
    rintro rfl
    cases hblank
  rw [tokensFrom_cons hquote hescape, hblank]
  exact if_pos ⟨rfl, Bool.false_ne_true⟩

theorem Quoted.reads {q : List Char} (h : Quoted q m) (t : List Char) :
    tokensFrom n true (some t) (q ++ rest) = tokensFrom n true (some (m.reverse ++ t)) rest := by
  induction h generalizing t with
  | nil => rfl
  | escape c h ih =>
    rw [List.cons_append, List.cons_append, tokensFrom_escape, Option.getD_some, ih,
      List.reverse_cons, List.append_assoc]
    rfl
  | plain hquote hescape h ih =>
    rw [List.cons_append, tokensFrom_quoted hquote hescape, Option.getD_some, ih,
      List.reverse_cons, List.append_assoc]
    rfl

/-- A piece adds what it denotes to the token, and begins one if there is none. -/
theorem Piece.reads (h : Piece s m) (begun : Option (List Char)) :
    tokensFrom n false begun (s ++ rest) =
      tokensFrom n false (some (m.reverse ++ begun.getD [])) rest := by
  cases h with
  | plain hblank hquote hescape => exact tokensFrom_plain hblank hquote hescape
  | escape c => exact tokensFrom_escape
  | quoted h =>
    rw [List.cons_append, List.append_assoc, tokensFrom_quote, Bool.not_false, h.reads,
      List.singleton_append, tokensFrom_quote]
    rfl

theorem Pieces.reads (h : Pieces s m) (t : List Char) :
    tokensFrom n false (some t) (s ++ rest) = tokensFrom n false (some (m.reverse ++ t)) rest := by
  induction h generalizing t with
  | nil => rfl
  | cons h h' ih =>
    rw [List.append_assoc, h.reads, Option.getD_some, ih, List.reverse_append,
      List.append_assoc]

theorem Token.reads {t : String} (h : Token s t) :
    tokensFrom n false none (s ++ rest) = tokensFrom n false (some t.toList.reverse) rest := by
  cases h with
  | pieces h h' =>
    rw [List.append_assoc, h.reads, h'.reads, String.toList_ofList, List.reverse_append]
    simp

theorem Blank.reads (h : Blank b) :
    tokensFrom n false none (b ++ rest) = tokensFrom n false none rest := by
  induction b with
  | nil => rfl
  | cons c b ih =>
    rw [List.cons_append, tokensFrom_blank (h c List.mem_cons_self)]
    exact ih fun d hd => h d (List.mem_cons_of_mem _ hd)

/-- A token with blanks before it and a blank behind. -/
theorem Token.reads_blank {t : String} (hb : Blank b) (h : Token s t)
    (hc : Text.isBlank c = true) : tokensFrom n false none (b ++ s ++ c :: rest) =
      (tokensFrom (n + 1) false none rest).map (t :: ·) := by
  rw [List.append_assoc, hb.reads, h.reads, tokensFrom_blank hc]
  show (tokensFrom (n + 1) false none rest).map (String.ofList t.toList.reverse.reverse :: ·) = _
  rw [List.reverse_reverse, String.ofList_toList]

/-- The tokens of a line. -/
theorem Spaced.reads {ts : List String} (h : Spaced cs ts) :
    tokensFrom n false none cs = .ok ts := by
  induction h generalizing n with
  | @blank b hb =>
    rw [← List.append_nil b, hb.reads]
    rfl
  | @last b s t hb h =>
    have hend : tokensFrom n false (some t.toList.reverse) [] = .ok [t] := by
      show Except.ok [String.ofList t.toList.reverse.reverse] = _
      rw [List.reverse_reverse, String.ofList_toList]
    rw [hb.reads, ← List.append_nil s, h.reads, hend]
  | cons hb h hc hrest ih =>
    rw [h.reads_blank hb hc, ih]
    rfl

/-- Before the end of a text there may be pieces, and they do not matter to what goes wrong. -/
theorem Pieces.exists_begun (h : Pieces s m) (begun : Option (List Char)) :
    ∃ begun', ∀ rest, tokensFrom n false begun (s ++ rest) = tokensFrom n false begun' rest := by
  cases h with
  | nil => exact ⟨begun, fun rest => rfl⟩
  | @cons s m s' m' h h' =>
    refine ⟨some (m'.reverse ++ (m.reverse ++ begun.getD [])), fun rest => ?_⟩
    rw [List.append_assoc, h.reads, h'.reads]

theorem Unfinished.reads (h : Unfinished s problem) :
    tokensFrom n false none s = .error ⟨n, problem⟩ := by
  cases h with
  | escape h =>
    obtain ⟨begun, hbegun⟩ := h.exists_begun (n := n) none
    rw [hbegun, tokensFrom_dangling]
  | @quote s m q m' h hq =>
    obtain ⟨begun, hbegun⟩ := h.exists_begun (n := n) none
    rw [hbegun, tokensFrom_quote, Bool.not_false, ← List.append_nil q, hq.reads]
    rfl
  | quotedEscape h hq =>
    obtain ⟨begun, hbegun⟩ := h.exists_begun (n := n) none
    rw [hbegun, tokensFrom_quote, Bool.not_false, hq.reads, tokensFrom_dangling]

/-- The fault of a text. -/
theorem Faulty.reads {i : Nat} (h : Faulty cs i problem) :
    tokensFrom n false none cs = .error ⟨n + i, problem⟩ := by
  induction h generalizing n with
  | here hb h =>
    rw [hb.reads, h.reads]
    rfl
  | behind hb h hc hrest ih =>
    rw [h.reads_blank hb hc, ih, Nat.add_right_comm]
    rfl

end

/-- There are two ways not to come to an end. -/
theorem Faulty.problem {cs : List Char} {i : Nat} {problem : LineProblem}
    (h : Faulty cs i problem) : problem = .danglingEscape ∨ problem = .unterminatedQuote := by
  induction h with
  | here hb h => cases h <;> simp
  | behind hb h hc hrest ih => exact ih

/-! ### A backslash at the end -/

/-- Whether a text ends in a backslash that takes nothing: an odd number of backslashes stand at its
end, each second one taken by the one before. -/
def Dangles (s : List Char) : Prop := (s.reverse.takeWhile (· = '\\')).length % 2 = 1

instance (s : List Char) : Decidable (Dangles s) := inferInstanceAs (Decidable (_ = _))

section

variable {c : Char} {rest : List Char}

theorem dangles_cons (h : c ≠ '\\') : Dangles (c :: rest) ↔ Dangles rest := by
  unfold Dangles
  rw [List.reverse_cons, List.takeWhile_append]
  split
  · rename_i hall
    simp [h, hall]
  · rfl

theorem dangles_escape : Dangles ('\\' :: c :: rest) ↔ Dangles rest := by
  unfold Dangles
  rw [List.reverse_cons, List.reverse_cons, List.append_assoc, List.takeWhile_append]
  split
  · rename_i hall
    by_cases hc : c = '\\'
    · subst hc
      simp [hall]
    · simp [hc, hall]
  · rfl

end

/-- Whatever was read before, the tokenizer stops at a backslash that takes nothing. -/
theorem tokensFrom_dangling_iff (n : Nat) (quoted : Bool) (begun : Option (List Char))
    (cs : List Char) : (∃ i, tokensFrom n quoted begun cs = .error ⟨i, .danglingEscape⟩) ↔
      Dangles cs := by
  match cs with
  | [] =>
    have hnil : ¬ Dangles [] := by decide
    refine iff_of_false ?_ hnil
    rintro ⟨i, h⟩
    cases quoted <;> cases h
  | c :: rest =>
    by_cases hescape : c = '\\'
    · subst hescape
      cases rest with
      | nil => exact iff_of_true ⟨n, tokensFrom_dangling⟩ (by decide)
      | cons d rest =>
        rw [dangles_escape, tokensFrom_escape]
        exact tokensFrom_dangling_iff n quoted _ rest
    · rw [dangles_cons hescape]
      by_cases hquote : c = '"'
      · subst hquote
        rw [tokensFrom_quote]
        exact tokensFrom_dangling_iff n _ _ rest
      · rw [tokensFrom_cons hquote hescape]
        split
        · cases begun with
          | none => exact tokensFrom_dangling_iff n quoted none rest
          | some t =>
            rw [← tokensFrom_dangling_iff (n + 1) quoted none rest]
            -- The token that is put in front changes no error.
            cases tokensFrom (n + 1) quoted none rest <;> simp [Except.map]
        · exact tokensFrom_dangling_iff n quoted _ rest
termination_by cs.length

/-! ### Writing tokens down -/

/-- A character as it is written between quotes. -/
def escaped (c : Char) : List Char := if c = '"' ∨ c = '\\' then ['\\', c] else [c]

/-- A text as it is written between quotes, with the quotes. -/
def enquote (t : String) : String := String.ofList ('"' :: (t.toList.flatMap escaped ++ ['"']))

theorem quoted_flatMap_escaped (m : List Char) : Quoted (m.flatMap escaped) m := by
  induction m with
  | nil => exact .nil
  | cons c m ih =>
    rw [List.flatMap_cons]
    by_cases hc : c = '"' ∨ c = '\\'
    · rw [escaped, if_pos hc]
      exact ih.escape c
    · rw [escaped, if_neg hc]
      exact ih.plain (fun h => hc (.inl h)) fun h => hc (.inr h)

/-- A text between quotes is a token, the empty text too. -/
theorem token_enquote (t : String) : Token (enquote t).toList t := by
  have htoken : Token _ (String.ofList (t.toList ++ [])) :=
    .pieces (.quoted (quoted_flatMap_escaped t.toList)) .nil
  rw [List.append_nil, List.append_nil, String.ofList_toList] at htoken
  rw [enquote, String.toList_ofList]
  exact htoken

/-- Texts between quotes, with a space between one and the next, are a line. -/
theorem spaced_joined (ts : List String) :
    Spaced (Text.joined " " (ts.map enquote)).toList ts := by
  have hspace : " ".toList = [' '] := by decide
  rw [Text.joined, String.toList_intercalate, List.map_map, hspace]
  induction ts with
  | nil => exact .blank .nil
  | cons t ts ih =>
    cases ts with
    | nil =>
      have hline : Spaced ([] ++ (enquote t).toList) [t] := .last .nil (token_enquote t)
      rw [List.nil_append] at hline
      rw [List.map_singleton, List.intercalate_singleton, Function.comp_apply]
      exact hline
    | cons t' ts =>
      have hline : Spaced ([] ++ (enquote t).toList ++ ' ' :: _) (t :: t' :: ts) :=
        .cons .nil (token_enquote t) (by decide) ih
      rw [List.nil_append] at hline
      rw [List.map_cons, List.map_cons, List.intercalate_cons_cons, List.append_assoc,
        List.singleton_append, Function.comp_apply]
      exact hline

/-! ### The tokenizer -/

/-- **The tokenizer accepts its grammar, and nothing else.**

* It gives tokens if and only if the text is a line, and then the tokens that the line denotes.
* It fails if and only if the text is faulty, at the first token that does not come to an end,
  counted by the tokens completed before it.
* The fault is a dangling escape if and only if the text ends in a backslash that takes nothing, and
  otherwise an open quote.
* Any texts, written between quotes with quotes and backslashes escaped, are given back.
-/
theorem tokenize_iff_spaced :
    (∀ s ts, tokenize s = .ok ts ↔ Spaced s.toList ts) ∧
    (∀ s fault, tokenize s = .error fault ↔ Faulty s.toList fault.index fault.problem) ∧
    (∀ s, (∃ i, tokenize s = .error ⟨i, .danglingEscape⟩) ↔ Dangles s.toList) ∧
    (∀ s, (∃ i, tokenize s = .error ⟨i, .unterminatedQuote⟩) ↔
      (∀ ts, ¬ Spaced s.toList ts) ∧ ¬ Dangles s.toList) ∧
    (∀ ts, tokenize (Text.joined " " (ts.map enquote)) = .ok ts) := by
  have hspaced : ∀ s ts, Spaced s.toList ts → tokenize s = .ok ts := fun s ts h => h.reads
  have hfaulty : ∀ s i problem, Faulty s.toList i problem → tokenize s = .error ⟨i, problem⟩ := by
    intro s i problem h
    rw [tokenize, h.reads, Nat.zero_add]
  -- A text is a line or faulty, and on either the answer is known: so each answer tells which.
  have hok : ∀ s ts, tokenize s = .ok ts ↔ Spaced s.toList ts := by
    refine fun s ts => ⟨fun hts => ?_, hspaced s ts⟩
    rcases Spaced.total s.toList with ⟨ts', h⟩ | ⟨i, problem, h⟩
    · cases hts.symm.trans (hspaced s ts' h)
      exact h
    · cases hts.symm.trans (hfaulty s i problem h)
  have herror : ∀ s fault, tokenize s = .error fault ↔
      Faulty s.toList fault.index fault.problem := by
    refine fun s fault => ⟨fun hfault => ?_, hfaulty s _ _⟩
    rcases Spaced.total s.toList with ⟨ts, h⟩ | ⟨i, problem, h⟩
    · cases hfault.symm.trans (hspaced s ts h)
    · cases hfault.symm.trans (hfaulty s i problem h)
      exact h
  have hdangles : ∀ s, (∃ i, tokenize s = .error ⟨i, .danglingEscape⟩) ↔ Dangles s.toList :=
    fun s => tokensFrom_dangling_iff 0 false none s.toList
  refine ⟨hok, herror, hdangles, fun s => ?_, fun ts => hspaced _ ts (spaced_joined ts)⟩
  rw [← hdangles]
  constructor
  · rintro ⟨i, hfault⟩
    refine ⟨fun ts h => ?_, fun ⟨j, hother⟩ => ?_⟩
    · cases hfault.symm.trans (hspaced s ts h)
    · cases hfault.symm.trans hother
  · rintro ⟨hnone, hnot⟩
    rcases Spaced.total s.toList with ⟨ts, h⟩ | ⟨i, problem, h⟩
    · exact absurd h (hnone ts)
    · rcases h.problem with rfl | rfl
      · exact absurd ⟨i, hfaulty s i _ h⟩ hnot
      · exact ⟨i, hfaulty s i _ h⟩

example : tokenize "give name:\"Old Blade\" \"\"" = .ok ["give", "name:Old Blade", ""] := by rfl

end Questbook.Line
