/-
Questbook/Proofs/Template.lean

Texts with references, written and scanned.

Segments are written with their percent signs doubled, a reference between two percent signs of its
own.  What `scan` gives is always `Neat`: no literal is empty, no two literals are side by side, and
a name can be told from the text around it.  Among neat segments there is one for each text that is
written, so that scanning gives back what was written,

    scan (write l) = l  ↔  Neat l,

and what was scanned is scanned again as the same, whatever percent signs there were in the text.

The scanner looks at the pieces between the percent signs, and `scanFrom` states what it does with
the characters: two percent signs stand for one of them, a name between two is a reference, and any
other character is one to gather.
-/
import Mathlib.Data.List.Chain
import Questbook.Template

namespace Questbook.Template

open Text

/-! ### Writing -/

/-- Characters with every percent sign doubled. -/
def doubled (cs : List Char) : List Char := cs.flatMap fun c => if c = '%' then ['%', '%'] else [c]

/-- A text with every percent sign doubled. -/
def escape (s : String) : String := String.ofList (doubled s.toList)

/-- A segment as it is written. -/
def Segment.chars : Segment String → List Char
  | literal text => doubled text.toList
  | reference name => '%' :: (name.toList ++ ['%'])

/-- The text that segments are written as. -/
def write (l : List (Segment String)) : String := String.ofList (l.flatMap Segment.chars)

/-! ### What a scan gives -/

/-- Whether a segment is a literal. -/
def Segment.isLiteral {α : Type} : Segment α → Bool
  | literal _ => true
  | reference _ => false

/-- A name that can stand between two percent signs. -/
def IsName (name : List Char) : Prop :=
  name ≠ [] ∧ ∀ c ∈ name, c ≠ '%' ∧ isBlank c = false

/-- The characters of a name are looked at one by one. -/
instance (name : List Char) : Decidable (IsName name) :=
  decidable_of_iff (name ≠ [] ∧ name.all (fun c => c != '%' && !isBlank c) = true)
    (by simp [IsName])

/-- No literal is empty and none stands beside another one, and the references have names. -/
structure Neat (l : List (Segment String)) : Prop where
  literals : ∀ text, .literal text ∈ l → text ≠ ""
  names : ∀ name, .reference name ∈ l → IsName name.toList
  apart : l.IsChain fun a b => ¬(a.isLiteral = true ∧ b.isLiteral = true)

variable {gathered name : List Char} {l : List (Segment String)}

theorem neat_nil : Neat [] := ⟨nofun, nofun, .nil⟩

theorem neat_cons {s : Segment String} : Neat (s :: l) ↔
    (∀ text, s = .literal text → text ≠ "" ∧ ∀ t ∈ l.head?, t.isLiteral = false) ∧
    (∀ name, s = .reference name → IsName name.toList) ∧ Neat l := by
  constructor
  · rintro ⟨hliterals, hnames, hapart⟩
    obtain ⟨hhead, hrest⟩ := List.isChain_cons.1 hapart
    refine ⟨fun text hs => ⟨hliterals text (hs ▸ List.mem_cons_self), fun t ht => ?_⟩,
      fun name hs => hnames name (hs ▸ List.mem_cons_self),
      fun text h => hliterals text (List.mem_cons_of_mem _ h),
      fun name h => hnames name (List.mem_cons_of_mem _ h), hrest⟩
    subst hs
    simpa [Segment.isLiteral] using hhead t ht
  · rintro ⟨hliteral, hname, hliterals, hnames, hapart⟩
    refine ⟨fun text h => ?_, fun name h => ?_, List.isChain_cons.2 ⟨fun t ht hboth => ?_, hapart⟩⟩
    · rcases List.mem_cons.1 h with hs | h
      · exact (hliteral text hs.symm).1
      · exact hliterals text h
    · rcases List.mem_cons.1 h with hs | h
      · exact hname name hs.symm
      · exact hnames name h
    · cases s with
      | literal text => exact absurd hboth.2 (by simp [(hliteral text rfl).2 t ht])
      | reference name => cases hboth.1

theorem neat_reference_cons {text : String} :
    Neat (.reference text :: l) ↔ IsName text.toList ∧ Neat l := by
  simp [neat_cons]

theorem neat_literal_cons {text : String} : Neat (.literal text :: l) ↔
    text ≠ "" ∧ (∀ t ∈ l.head?, t.isLiteral = false) ∧ Neat l := by
  simp [neat_cons, and_assoc]

/-- What was gathered goes in front of segments that do not begin with a literal. -/
theorem Neat.flush (h : Neat l) (hhead : ∀ t ∈ l.head?, t.isLiteral = false) :
    Neat (flush gathered l) := by
  unfold Template.flush
  split
  · exact h
  · rename_i hgathered
    have hne : String.ofList gathered.reverse ≠ "" := by
      simpa [String.ofList_eq_empty_iff] using hgathered
    exact neat_literal_cons.2 ⟨hne, hhead, h⟩

/-- Whatever the pieces are that percent signs cut a text into, their segments are neat. -/
theorem neat_scanPieces (gathered : List Char) (pieces : List (List Char))
    (hpieces : ∀ piece ∈ pieces, '%' ∉ piece) : Neat (scanPieces gathered pieces) := by
  fun_induction scanPieces gathered pieces with
  | case1 gathered => exact neat_nil.flush nofun
  | case2 gathered text => exact neat_nil.flush nofun
  | case3 gathered text name rest before hrest ih =>
    exact ih fun piece h => hpieces piece (List.mem_cons_of_mem _ h)
  | case4 gathered text name rest before hrest hname ih =>
    exact ih fun piece h => hpieces piece (List.mem_cons_of_mem _ (List.mem_cons_of_mem _ h))
  | case5 gathered text name rest before hrest hname hblank ih =>
    exact ih fun piece h => hpieces piece (List.mem_cons_of_mem _ h)
  | case6 gathered text name rest before hrest hname hblank ih =>
    -- A piece has no percent sign, and this one is neither empty nor has it blanks.
    have hpercent : '%' ∉ name := hpieces name (List.mem_cons_of_mem _ List.mem_cons_self)
    have hisName : IsName name := by
      refine ⟨by simpa using hname, fun c hc => ⟨fun h => hpercent (h ▸ hc), ?_⟩⟩
      simpa using fun h => hblank (List.any_eq_true.2 ⟨c, hc, h⟩)
    have hneat := ih fun piece h =>
      hpieces piece (List.mem_cons_of_mem _ (List.mem_cons_of_mem _ h))
    refine Neat.flush (neat_reference_cons.2 ⟨?_, hneat⟩) (by simp [Segment.isLiteral])
    simpa using hisName

theorem neat_scan (s : String) : Neat (scan s) :=
  neat_scanPieces [] _ fun _ h => not_mem_of_mem_piecesChars h

/-! ### Scanning characters -/

/-- The segments of some characters, given those gathered before them. -/
def scanFrom (gathered cs : List Char) : List (Segment String) :=
  scanPieces gathered (piecesChars '%' cs)

theorem scanFrom_nil : scanFrom gathered [] = flush gathered [] := rfl

/-- A character that is no percent sign is gathered. -/
theorem scanFrom_cons {c : Char} (h : c ≠ '%') (cs : List Char) :
    scanFrom gathered (c :: cs) = scanFrom (c :: gathered) cs := by
  obtain ⟨piece, pieces, hcs, hcons⟩ := piecesChars_cons_of_ne h cs
  unfold scanFrom
  rw [hcs, hcons]
  cases pieces <;> simp [scanPieces]

/-- Two percent signs stand for one. -/
theorem scanFrom_percent (cs : List Char) :
    scanFrom gathered ('%' :: '%' :: cs) = scanFrom ('%' :: gathered) cs := by
  simp [scanFrom, piecesChars, scanPieces, piecesChars_ne_nil]

/-- A name between two percent signs is a reference. -/
theorem scanFrom_reference (h : IsName name) (cs : List Char) :
    scanFrom gathered ('%' :: (name ++ '%' :: cs)) =
      flush gathered (.reference (String.ofList name) :: scanFrom [] cs) := by
  obtain ⟨hne, hname⟩ := h
  have hpercent : '%' ∉ name := fun h => (hname _ h).1 rfl
  have hpieces : piecesChars '%' ('%' :: (name ++ '%' :: cs)) =
      [] :: name :: piecesChars '%' cs := by
    simp [piecesChars, piecesChars_append cs hpercent]
  have hblank : name.any isBlank = false := by simpa using fun c hc => (hname c hc).2
  simp [scanFrom, hpieces, scanPieces, piecesChars_ne_nil, hne, hblank]

/-- Characters whose percent signs are doubled are gathered as they were. -/
theorem scanFrom_doubled (text cs : List Char) :
    scanFrom gathered (doubled text ++ cs) = scanFrom (text.reverse ++ gathered) cs := by
  induction text generalizing gathered with
  | nil => rfl
  | cons c text ih =>
    have hcons : doubled (c :: text) = (if c = '%' then ['%', '%'] else [c]) ++ doubled text := rfl
    rw [hcons, List.reverse_cons, List.append_assoc, List.append_assoc, List.singleton_append]
    by_cases hc : c = '%'
    · subst hc
      exact (scanFrom_percent _).trans ih
    · rw [if_neg hc, List.singleton_append, scanFrom_cons hc, ih]

/-- Written segments are scanned as they were, behind what was gathered, unless that goes into a
literal at their beginning. -/
theorem scanFrom_chars (h : Neat l) (hhead : ∀ t ∈ l.head?, t.isLiteral = true → gathered = []) :
    scanFrom gathered (l.flatMap Segment.chars) = flush gathered l := by
  induction l generalizing gathered with
  | nil => exact scanFrom_nil
  | cons s l ih =>
    rw [List.flatMap_cons]
    cases s with
    | literal text =>
      -- Its characters are all that is gathered, and no literal follows that they could go into.
      obtain ⟨hne, hnext, hl⟩ := neat_literal_cons.1 h
      obtain rfl : gathered = [] := hhead _ rfl rfl
      have hgathered : text.toList.reverse.isEmpty = false := by
        simpa [String.toList_eq_nil_iff] using hne
      rw [Segment.chars, scanFrom_doubled, List.append_nil, ih hl fun t ht hliteral => ?_]
      · simp [flush, hgathered]
      · cases (hnext t ht).symm.trans hliteral
    | reference name =>
      obtain ⟨hname, hl⟩ := neat_reference_cons.1 h
      rw [Segment.chars, List.cons_append, List.append_assoc, List.singleton_append,
        scanFrom_reference hname, ih hl fun _ _ _ => rfl, String.ofList_toList]
      rfl

/-! ### The scanner -/

/-- **Scanning inverts writing.**

* Segments that are written are given back by a scan if and only if they are neat.
* So a text that is not empty is given back as a single literal, once its percent signs are doubled.
* Any text at all is scanned into neat segments, and these are written and scanned as the same
  again.
-/
theorem scan_write_iff_neat :
    (∀ l, scan (write l) = l ↔ Neat l) ∧
    (∀ s, s ≠ "" → scan (escape s) = [.literal s]) ∧
    (∀ s, Neat (scan s) ∧ scan (write (scan s)) = scan s) := by
  have hwritten : ∀ l, Neat l → scan (write l) = l := by
    intro l h
    have hscan : scanFrom [] (l.flatMap Segment.chars) = l := scanFrom_chars h fun _ _ _ => rfl
    simpa [scan, write, scanFrom] using hscan
  refine ⟨fun l => ⟨fun h => h ▸ neat_scan (write l), hwritten l⟩, fun s hs => ?_,
    fun s => ⟨neat_scan s, hwritten _ (neat_scan s)⟩⟩
  have hescape : escape s = write [.literal s] := by simp [escape, write, Segment.chars]
  rw [hescape]
  exact hwritten _ (neat_literal_cons.2 ⟨hs, nofun, neat_nil⟩)

/-- Percent signs that stand for themselves beside references, and references beside each other. -/
theorem scan_write_iff_neat_of_percents :
    let l : List (Segment String) :=
      [.literal "50% of ", .reference "bank.debt", .reference "name", .literal "%!"]
    Neat l ∧ write l = "50%% of %bank.debt%%name%%%!" ∧
      scan "50%% of %bank.debt%%name%%%!" = l ∧ scan (escape "%a%") = [.literal "%a%"] := by
  intro l
  have hneat : Neat l := by
    refine neat_literal_cons.2 ⟨by decide, by simp [Segment.isLiteral], ?_⟩
    refine neat_reference_cons.2 ⟨by decide, ?_⟩
    refine neat_reference_cons.2 ⟨by decide, ?_⟩
    exact neat_literal_cons.2 ⟨by decide, nofun, neat_nil⟩
  have hwrite : write l = "50%% of %bank.debt%%name%%%!" := by decide
  obtain ⟨hwritten, hescaped, -⟩ := scan_write_iff_neat
  exact ⟨hneat, hwrite, hwrite ▸ (hwritten l).2 hneat, hescaped "%a%" (by decide)⟩

example : scan "50% off and 20% more" = [.literal "50% off and 20% more"] := by decide

end Questbook.Template
