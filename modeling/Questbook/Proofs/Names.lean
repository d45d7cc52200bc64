/-
Questbook/Proofs/Names.lean

Names of definitions and their texts.

A package whose name is not empty and has no dot is told from its text: the first dot stands between
the package and the name.  So different names have different texts, and the text means the
definition in whatever package it is written.  A name may have dots, blanks and all else in it; it
may be empty too, and then the text is no name written out in full.

Main results: `ObjectId.parse?_eq_some_iff`, `ObjectId.parse?_text` and `ObjectId.qualify_text`.
-/
import Questbook.Package.Folder
import Questbook.Progress.Record

namespace Questbook

theorem Entry.isPackageName_iff {name : String} :
    Entry.isPackageName name = true ↔ name ≠ "" ∧ '.' ∉ name.toList := by
  simp [Entry.isPackageName]

theorem Text.cut_eq_some_iff {sep : Char} {s a b : String} :
    Text.cut sep s = some (a, b) ↔ s.toList = a.toList ++ sep :: b.toList ∧ sep ∉ a.toList := by
  unfold Text.cut
  rw [Option.map_eq_some_iff]
  constructor
  · rintro ⟨⟨cs, ds⟩, hcut, heq⟩
    obtain ⟨rfl, rfl⟩ : String.ofList cs = a ∧ String.ofList ds = b := by simpa using heq
    simpa using Text.cutChars_eq_some hcut
  · rintro ⟨hs, ha⟩
    exact ⟨(a.toList, b.toList), hs ▸ Text.cutChars_append b.toList ha, by simp⟩

/-! ### Texts -/

namespace ObjectId

variable {id id' : ObjectId}

/-- The package of a definition can be the name of a package, and the definition has a name. -/
structure Legible (id : ObjectId) : Prop where
  package : Entry.isPackageName id.package = true
  name : id.name ≠ ""

theorem cut_text (h : '.' ∉ id.package.toList) :
    Text.cut '.' id.text = some (id.package, id.name) :=
  Text.cut_eq_some_iff.2 ⟨by simp [text], h⟩

/-- Names of packages without a dot have different texts. -/
theorem eq_of_text_eq (h : '.' ∉ id.package.toList) (h' : '.' ∉ id'.package.toList)
    (htext : id.text = id'.text) : id = id' := by
  have hcut := (cut_text h).symm.trans (htext ▸ cut_text h')
  obtain ⟨package, name⟩ := id
  cases hcut
  rfl

/-- What is read as a name written out in full is the text of that name, and the name is legible. -/
theorem parse?_eq_some_iff {s : String} : parse? s = some id ↔ id.Legible ∧ s = id.text := by
  unfold parse?
  constructor
  · intro h
    cases hcut : Text.cut '.' s with
    | none =>
      rw [hcut] at h
      cases h
    | some parts =>
      obtain ⟨package, name⟩ := parts
      rw [hcut] at h
      obtain ⟨hlegible, rfl⟩ : ¬(package = "" ∨ name = "") ∧ ObjectId.mk package name = id := by
        simpa using h
      obtain ⟨hpackage, hname⟩ := not_or.1 hlegible
      obtain ⟨hs, hdot⟩ := Text.cut_eq_some_iff.1 hcut
      refine ⟨⟨Entry.isPackageName_iff.2 ⟨hpackage, hdot⟩, hname⟩, ?_⟩
      exact String.toList_injective (by simp [text, hs])
  · rintro ⟨⟨hpackage, hname⟩, rfl⟩
    obtain ⟨hpackage, hdot⟩ := Entry.isPackageName_iff.1 hpackage
    simp [cut_text hdot, hpackage, hname]

/-- The text of a definition of a package is read back, unless the definition has the empty
name. -/
theorem parse?_text (h : Entry.isPackageName id.package = true) :
    parse? id.text = if id.name = "" then none else some id := by
  obtain ⟨hpackage, hdot⟩ := Entry.isPackageName_iff.1 h
  unfold parse?
  simp [cut_text hdot, hpackage]

/-- The text of a definition of a package means that definition wherever it is written. -/
theorem qualify_text (h : Entry.isPackageName id.package = true) (current : String) :
    qualify id.text current = id := by
  obtain ⟨hpackage, hdot⟩ := Entry.isPackageName_iff.1 h
  unfold qualify
  simp [cut_text hdot, hpackage]

end ObjectId

/-! ### Orders -/

/-- A test to sort by: of two things one comes first, and only equal ones come first both ways. -/
structure IsOrdering {α : Type} (r : α → α → Bool) : Prop where
  total : ∀ a b, (r a b || r b a) = true
  trans : ∀ a b c, r a b = true → r b c = true → r a c = true
  antisymm : ∀ a b, r a b = true → r b a = true → a = b

namespace IsOrdering

variable {α β : Type} {r : α → α → Bool} {s : β → β → Bool}

theorem comap (h : IsOrdering r) {f : β → α} (hf : Function.Injective f) :
    IsOrdering fun a b => r (f a) (f b) where
  total a b := h.total (f a) (f b)
  trans a b c := h.trans (f a) (f b) (f c)
  antisymm a b hab hba := hf (h.antisymm (f a) (f b) hab hba)

/-- To sort by the first part, and by the second where the first parts are equal. -/
theorem lex [DecidableEq α] (hr : IsOrdering r) (hs : IsOrdering s) :
    IsOrdering fun a b : α × β => if a.1 = b.1 then s a.2 b.2 else r a.1 b.1 where
  total := by
    rintro ⟨a, x⟩ ⟨b, y⟩
    by_cases hab : a = b
    · simpa [hab] using hs.total x y
    · simpa [hab, Ne.symm hab] using hr.total a b
  trans := by
    rintro ⟨a, x⟩ ⟨b, y⟩ ⟨c, z⟩ hab hbc
    by_cases h₁ : a = b
    · subst h₁
      by_cases h₂ : a = c
      · simp only [h₂, if_true] at hab hbc ⊢
        exact hs.trans x y z hab hbc
      · simpa [h₂] using hbc
    · by_cases h₂ : b = c
      · subst h₂
        simpa [h₁] using hab
      · simp only [h₁, h₂, if_false] at hab hbc
        have hac : a ≠ c := by
          rintro rfl
          exact h₁ (hr.antisymm a b hab hbc)
        simpa [hac] using hr.trans a b c hab hbc
  antisymm := by
    rintro ⟨a, x⟩ ⟨b, y⟩ hab hba
    by_cases h : a = b
    · subst h
      simp only [if_true] at hab hba
      rw [hs.antisymm x y hab hba]
    · simp only [h, Ne.symm h, if_false] at hab hba
      exact absurd (hr.antisymm a b hab hba) h

theorem pairwise_mergeSort (h : IsOrdering r) (f : β → α) (l : List β) :
    (l.mergeSort fun a b => r (f a) (f b)).Pairwise fun a b => r (f a) (f b) = true :=
  List.pairwise_mergeSort (fun a b c => h.trans (f a) (f b) (f c))
    (fun a b => h.total (f a) (f b)) l

end IsOrdering

theorem Text.isOrdering : IsOrdering Text.atMost where
  total a b := by
    simp only [Text.atMost, Bool.or_eq_true, Bool.not_eq_true', decide_eq_false_iff_not,
      String.not_lt]
    exact String.le_total a b
  trans a b c hab hbc := by
    simp only [Text.atMost, Bool.not_eq_true', decide_eq_false_iff_not, String.not_lt] at *
    exact String.le_trans hab hbc
  antisymm a b hab hba := by
    simp only [Text.atMost, Bool.not_eq_true', decide_eq_false_iff_not, String.not_lt] at *
    exact String.le_antisymm hab hba

theorem ObjectId.isOrdering : IsOrdering ObjectId.atMost :=
  (Text.isOrdering.lex Text.isOrdering).comap (f := fun id : ObjectId => (id.package, id.name))
    fun ⟨_, _⟩ ⟨_, _⟩ h => by cases h; rfl

theorem ProgressKey.isOrdering : IsOrdering ProgressKey.atMost :=
  (Text.isOrdering.comap (f := PlayerId.text) fun ⟨_⟩ ⟨_⟩ h => by cases h; rfl).lex
    ObjectId.isOrdering

end Questbook
