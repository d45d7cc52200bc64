/-
Questbook/Proofs/Package/Merging.lean

Packages that are added one after another.

A package that is added again is laid over what there is of its name.  So of the packages that were
added under a name the last one that declares something has it, what has come of them declares what
any of them does, and what is declared again is reported.

A table that is laid over another one leaves the keys of that one where they are and puts its own
behind them.  It makes no difference which two of three tables were laid over each other first, not
even to the order of the entries.

Main result: `last_insert_wins`.
-/
import Mathlib.Data.List.Nodup
import Mathlib.Data.Set.Card
import Questbook.Package.Source

namespace Questbook

/-! ### Tables in terms of their keys -/

namespace Table

variable {κ ν : Type} [DecidableEq κ]

/-- A table is told by its keys, in their order, and by what is found under them. -/
theorem eq_of_keys {t t' : Table κ ν} (hkeys : t.keys = t'.keys)
    (hfind : ∀ k, t.find? k = t'.find? k) : t = t' := by
  have hlength : t.entries.length = t'.entries.length := by
    simpa only [keys, List.length_map] using congrArg List.length hkeys
  refine eq_of_entries (List.ext_getElem hlength fun i h h' => ?_)
  have hkey : t.entries[i].1 = t'.entries[i].1 := by
    have hi : t.keys[i]? = t'.keys[i]? := by rw [hkeys]
    simpa [keys, h, h'] using hi
  have hvalue : t.find? t.entries[i].1 = some t.entries[i].2 :=
    find?_of_mem_entries (List.getElem_mem h)
  have hvalue' : t'.find? t'.entries[i].1 = some t'.entries[i].2 :=
    find?_of_mem_entries (List.getElem_mem h')
  refine Prod.ext hkey (Option.some.inj ?_)
  rw [← hvalue, ← hvalue', hfind, hkey]

theorem keys_insert (t : Table κ ν) (k : κ) (v : ν) :
    (t.insert k v).keys = if t.contains k then t.keys else t.keys ++ [k] := by
  show (put k v t.entries).map Prod.fst =
    if (lookup k t.entries).isSome then t.entries.map Prod.fst else t.entries.map Prod.fst ++ [k]
  induction t.entries with
  | nil => rfl
  | cons e rest ih =>
    obtain ⟨k', v'⟩ := e
    by_cases hk : k' = k
    · subst hk
      simp [put, lookup]
    · rw [put, if_neg hk, lookup, if_neg hk, List.map_cons, ih, List.map_cons]
      split <;> rfl

theorem contains_insert (t : Table κ ν) (k k' : κ) (v : ν) :
    (t.insert k v).contains k' = (decide (k = k') || t.contains k') := by
  rw [contains, find?_insert]
  by_cases hk : k = k' <;> simp [hk, contains]

/-- Setting entries under keys that are all different puts those that are new behind the others. -/
theorem keys_foldl_insert {l : List (κ × ν)} (hl : (l.map Prod.fst).Nodup) (t : Table κ ν) :
    (l.foldl (fun t e => t.insert e.1 e.2) t).keys =
      t.keys ++ (l.map Prod.fst).filter fun k => !t.contains k := by
  induction l generalizing t with
  | nil => simp
  | cons e rest ih =>
    obtain ⟨hnew, hrest⟩ := List.nodup_cons.1 hl
    -- What comes after the first entry has other keys, and so is new if it was before.
    have hsame : ((rest.map Prod.fst).filter fun k => !(t.insert e.1 e.2).contains k) =
        (rest.map Prod.fst).filter fun k => !t.contains k := by
      refine List.filter_congr fun k hk => ?_
      have hne : e.1 ≠ k := fun heq => hnew (heq ▸ hk)
      rw [contains_insert, decide_eq_false hne, Bool.false_or]
    rw [List.foldl_cons, ih hrest, hsame, keys_insert, List.map_cons, List.filter_cons]
    cases t.contains e.1 <;> simp

end Table

/-! ### Merging -/

namespace PackageSource

section

variable {ν : Type}

theorem find?_overlay (later earlier : Table String ν) (name : String) :
    (overlay later earlier).find? name = (later.find? name).or (earlier.find? name) := by
  rw [overlay, Table.find?_foldl_insert]
  congr 1
  cases hlast : later.entries.reverse.find? fun e => e.1 = name with
  | none =>
    refine (Option.eq_none_iff_forall_ne_some.2 fun v hv => ?_).symm
    exact List.find?_eq_none.1 hlast (name, v)
      (List.mem_reverse.2 (Table.mem_entries_of_find? hv)) (by simp)
  | some e =>
    obtain rfl : e.1 = name := by simpa using List.find?_some hlast
    exact (Table.find?_of_mem_entries
      (List.mem_reverse.1 (List.mem_of_find?_eq_some hlast))).symm

theorem contains_overlay (later earlier : Table String ν) (name : String) :
    (overlay later earlier).contains name = (later.contains name || earlier.contains name) := by
  rw [Table.contains, find?_overlay, Option.isSome_or, Table.contains, Table.contains]

theorem keys_overlay (later earlier : Table String ν) : (overlay later earlier).keys =
    earlier.keys ++ later.keys.filter fun name => !earlier.contains name :=
  Table.keys_foldl_insert later.distinct earlier

/-- It makes no difference which two of three tables are laid over each other first. -/
theorem overlay_assoc (a b c : Table String ν) :
    overlay c (overlay b a) = overlay (overlay c b) a := by
  refine Table.eq_of_keys ?_ fun name => ?_
  · simp only [keys_overlay, List.filter_append, List.filter_filter, contains_overlay,
      Bool.not_or, List.append_assoc, Bool.and_comm]
  · simp only [find?_overlay, Option.or_assoc]

/-- Of the packages that are merged the last one that declares a name has it, for a table of
packages that is merged by laying the later one over the earlier one. -/
theorem find?_foldl_merge {table : PackageSource → Table String ν}
    (h : ∀ p later : PackageSource, table (p.merge later) = overlay (table later) (table p))
    (l : List PackageSource) (p : PackageSource) (name : String) :
    (table (l.foldl merge p)).find? name =
      (l.reverse.findSome? fun q => (table q).find? name).or ((table p).find? name) := by
  induction l generalizing p with
  | nil => rfl
  | cons q l ih =>
    rw [List.foldl_cons, ih, h, find?_overlay, List.reverse_cons, List.findSome?_append,
      Option.or_assoc]
    simp

end

variable (p q r : PackageSource) (k : Kind) (name : String)

theorem merge_assoc : (p.merge q).merge r = p.merge (q.merge r) := by
  simp only [merge, overlay_assoc]

theorem declares_merge :
    (p.merge q).declares k name = (q.declares k name || p.declares k name) := by
  cases k <;> exact contains_overlay ..

/-! ### What a package declares -/

variable {p}

theorem mem_declarations_iff {d : Kind × String} :
    d ∈ p.declarations ↔ p.declares d.1 d.2 = true := by
  obtain ⟨k, name⟩ := d
  have hkeys : name ∈ p.keys k ↔ p.declares k name = true := by
    cases k <;> exact Table.contains_iff_mem_keys.symm
  rw [← hkeys, declarations, List.mem_flatMap]
  constructor
  · rintro ⟨k', -, hmem⟩
    obtain ⟨name', hname, heq⟩ := List.mem_map.1 hmem
    cases heq
    exact hname
  · exact fun hname => ⟨k, Kind.mem_all k, List.mem_map_of_mem hname⟩

theorem nodup_declarations (p : PackageSource) : p.declarations.Nodup := by
  refine List.nodup_flatMap.2 ⟨fun k _ => ?_, ?_⟩
  · have hkeys : (p.keys k).Nodup := by cases k <;> exact Table.distinct _
    exact hkeys.map (Prod.mk_right_injective k)
  · refine (show Kind.all.Nodup by decide).imp fun {k k'} hne => ?_
    intro d hd hd'
    obtain ⟨name, -, rfl⟩ := List.mem_map.1 hd
    obtain ⟨name', -, heq⟩ := List.mem_map.1 hd'
    exact hne (Prod.ext_iff.1 heq).1.symm

/-- The size of a package is the number of its declarations. -/
theorem encard_declares (p : PackageSource) :
    Set.encard {d : Kind × String | p.declares d.1 d.2 = true} = p.size := by
  have hset : {d : Kind × String | p.declares d.1 d.2 = true} = ↑p.declarations.toFinset := by
    ext d
    simp [mem_declarations_iff]
  have hsize : p.declarations.length = p.size := by
    simp [declarations, Kind.all, keys, lines, Table.keys, size, Table.size]
    omega
  rw [hset, Set.encard_coe_eq_coe_finsetCard,
    List.toFinset_card_of_nodup p.nodup_declarations, hsize]

end PackageSource

/-! ### Adding packages -/

namespace Sources

variable {ν : Type} {s : Sources} {package : String} {p : PackageSource} {k : Kind} {id : ObjectId}

/-- The entry of a definition in a table of its package. -/
def lookup? (s : Sources) (table : PackageSource → Table String ν) (id : ObjectId) : Option ν := do
  let p ← s.packages.find? id.package
  (table p).find? id.name

/-- What is added is laid over what there is of the package. -/
theorem lookup?_insert {table : PackageSource → Table String ν}
    (h : ∀ p later : PackageSource,
      table (p.merge later) = PackageSource.overlay (table later) (table p))
    (s : Sources) (package : String) (p : PackageSource) (id : ObjectId) :
    (s.insert package p).2.lookup? table id =
      if package = id.package then ((table p).find? id.name).or (s.lookup? table id)
      else s.lookup? table id := by
  unfold lookup? insert
  by_cases hpackage : package = id.package
  · subst hpackage
    cases s.packages.find? id.package with
    | none => simp
    | some earlier => simp [h, PackageSource.find?_overlay]
  · cases s.packages.find? package <;> simp [hpackage, Table.find?_insert]

theorem declares_insert (s : Sources) (package : String) (p : PackageSource) (k : Kind)
    (id : ObjectId) : (s.insert package p).2.declares k id =
      (decide (package = id.package) && p.declares k id.name || s.declares k id) := by
  unfold declares insert
  by_cases hpackage : package = id.package
  · subst hpackage
    cases s.packages.find? id.package <;> simp [PackageSource.declares_merge]
  · cases s.packages.find? package <;> simp [hpackage, Table.find?_insert]

/-- Adding a package reports what it declares and what is declared already. -/
theorem mem_insert_iff {name : String} : (k, name) ∈ (s.insert package p).1 ↔
    p.declares k name = true ∧ s.declares k ⟨package, name⟩ = true := by
  unfold insert declares
  cases s.packages.find? package with
  | none => simp
  | some earlier => simp [PackageSource.clashes, PackageSource.mem_declarations_iff]

theorem nodup_insert (s : Sources) (package : String) (p : PackageSource) :
    (s.insert package p).1.Nodup := by
  unfold insert
  cases s.packages.find? package with
  | none => exact List.nodup_nil
  | some earlier => exact p.nodup_declarations.filter _

/-- What comes of packages that are added one after another, each under a name. -/
def insertAll (calls : List (String × PackageSource)) : Sources :=
  calls.foldl (fun s c => (s.insert c.1 c.2).2) empty

theorem insertAll_concat (calls : List (String × PackageSource)) (c : String × PackageSource) :
    insertAll (calls ++ [c]) = ((insertAll calls).insert c.1 c.2).2 := by
  rw [insertAll, List.foldl_append, insertAll]
  rfl

/-- The last of the packages added under a name that declares something. -/
def lastToDeclare? (calls : List (String × PackageSource)) (k : Kind) (id : ObjectId) :
    Option PackageSource :=
  (calls.reverse.find? fun c => c.1 = id.package ∧ c.2.declares k id.name).map Prod.snd

theorem lastToDeclare?_concat (calls : List (String × PackageSource))
    (c : String × PackageSource) : lastToDeclare? (calls ++ [c]) k id =
      if c.1 = id.package ∧ c.2.declares k id.name then some c.2
      else lastToDeclare? calls k id := by
  rw [lastToDeclare?, List.reverse_append, List.reverse_singleton, List.singleton_append,
    List.find?_cons]
  split <;> simp_all [lastToDeclare?]

variable (calls : List (String × PackageSource))

theorem isSome_lastToDeclare? : (lastToDeclare? calls k id).isSome = true ↔
    ∃ p, (id.package, p) ∈ calls ∧ p.declares k id.name = true := by
  rw [lastToDeclare?, Option.isSome_map, List.find?_isSome]
  simp

/-- The last package that declares something has it, for a table in which it stands. -/
theorem lookup?_insertAll {table : PackageSource → Table String ν}
    (h : ∀ p later : PackageSource,
      table (p.merge later) = PackageSource.overlay (table later) (table p))
    (hdeclares : ∀ (p : PackageSource) name, (table p).contains name = p.declares k name)
    (id : ObjectId) : (insertAll calls).lookup? table id =
      (lastToDeclare? calls k id).bind fun p => (table p).find? id.name := by
  induction calls using List.reverseRecOn with
  | nil => rfl
  | append_singleton calls c ih =>
    rw [insertAll_concat, lookup?_insert h, lastToDeclare?_concat, ih, ← hdeclares]
    by_cases hpackage : c.1 = id.package
    · cases hfind : (table c.2).find? id.name <;> simp [hpackage, Table.contains, hfind]
    · simp [hpackage]

theorem line?_insertAll : (insertAll calls).line? k id =
    (lastToDeclare? calls k id).bind fun p => (p.lines k).find? id.name := by
  cases k with
  | conversation =>
    -- conversations have no lines
    show (insertAll calls).lookup? (fun _ => ∅) id = _
    simp [lookup?, PackageSource.lines]
  | _ => exact lookup?_insertAll calls (fun _ _ => rfl) (fun _ _ => rfl) id

theorem declares_insertAll (k : Kind) (id : ObjectId) :
    (insertAll calls).declares k id = true ↔
      ∃ p, (id.package, p) ∈ calls ∧ p.declares k id.name = true := by
  induction calls using List.reverseRecOn with
  | nil => simp [insertAll, declares, empty]
  | append_singleton calls c ih =>
    obtain ⟨package, p⟩ := c
    rw [insertAll_concat, declares_insert, Bool.or_eq_true, ih]
    constructor
    · rintro (h | ⟨q, hq, hdeclares⟩)
      · obtain ⟨rfl, hdeclares⟩ : package = id.package ∧ p.declares k id.name = true := by
          simpa using h
        exact ⟨p, by simp, hdeclares⟩
      · exact ⟨q, by simp [hq], hdeclares⟩
    · rintro ⟨q, hq, hdeclares⟩
      rcases List.mem_append.1 hq with hq | hq
      · exact .inr ⟨q, hq, hdeclares⟩
      · cases List.mem_singleton.1 hq
        exact .inl (by simp [hdeclares])

theorem isSome_insertAll : ((insertAll calls).packages.find? package).isSome = true ↔
    ∃ p, (package, p) ∈ calls := by
  induction calls using List.reverseRecOn with
  | nil => simp [insertAll, empty]
  | append_singleton calls c ih =>
    obtain ⟨package', p⟩ := c
    have hinsert : ((insertAll (calls ++ [(package', p)])).packages.find? package).isSome =
        (decide (package' = package) || ((insertAll calls).packages.find? package).isSome) := by
      rw [insertAll_concat, insert]
      split <;> exact Table.contains_insert ..
    rw [hinsert, Bool.or_eq_true, ih, decide_eq_true_iff]
    simp only [List.mem_append, List.mem_singleton, Prod.mk.injEq]
    constructor
    · rintro (rfl | ⟨q, hq⟩)
      · exact ⟨p, .inr ⟨rfl, rfl⟩⟩
      · exact ⟨q, .inl hq⟩
    · rintro ⟨q, hq | ⟨rfl, -⟩⟩
      · exact .inr ⟨q, hq⟩
      · exact .inl rfl

/-- The size of what has come of the packages of a name is the number of the different things that
they declare. -/
theorem size_insertAll (package : String) :
    (((insertAll calls).packages.find? package).getD .empty).size =
      Set.encard {d : Kind × String | ∃ p, (package, p) ∈ calls ∧ p.declares d.1 d.2 = true} := by
  rw [← PackageSource.encard_declares]
  congr 1
  ext ⟨k, name⟩
  rw [Set.mem_ofPred_eq, Set.mem_ofPred_eq, ← declares_insertAll calls k ⟨package, name⟩, declares]
  cases (insertAll calls).packages.find? package with
  | none => cases k <;> simp [PackageSource.declares, PackageSource.lines, PackageSource.empty,
      Table.contains]
  | some p => rfl

/-- **The last package that declares something has it.**  Packages are added one after another, each
under a name.  Under a name and for a kind, conversations included, there is what the last package
of that name has that declares it; whatever is added next reports exactly what it declares and some
earlier package of its name declared as well, each of it once; the size of what has come of the
packages of a name is the number of the different things that they declare; and merging is
associative. -/
theorem last_insert_wins (calls : List (String × PackageSource)) :
    (∀ k id, (insertAll calls).declares k id = (lastToDeclare? calls k id).isSome ∧
      (insertAll calls).line? k id =
        (lastToDeclare? calls k id).bind fun p => (p.lines k).find? id.name) ∧
    (∀ id, (insertAll calls).conversation? id =
      (lastToDeclare? calls .conversation id).bind fun p => p.conversations.find? id.name) ∧
    (∀ package p, ((insertAll calls).insert package p).1.Nodup ∧
      ∀ k name, (k, name) ∈ ((insertAll calls).insert package p).1 ↔
        p.declares k name = true ∧
          ∃ earlier, (package, earlier) ∈ calls ∧ earlier.declares k name = true) ∧
    (∀ package, ((insertAll calls).packages.find? package).isSome = true ↔
      ∃ p, (package, p) ∈ calls) ∧
    (∀ package, (((insertAll calls).packages.find? package).getD .empty).size =
      Set.encard {d : Kind × String | ∃ p, (package, p) ∈ calls ∧ p.declares d.1 d.2 = true}) ∧
    ∀ p q r : PackageSource, (p.merge q).merge r = p.merge (q.merge r) := by
  refine ⟨fun k id => ⟨?_, line?_insertAll calls⟩, fun id => ?_, fun package p => ?_,
    fun package => isSome_insertAll calls, size_insertAll calls, PackageSource.merge_assoc⟩
  · rw [Bool.eq_iff_iff, declares_insertAll, isSome_lastToDeclare?]
  · exact lookup?_insertAll calls (fun _ _ => rfl) (fun _ _ => rfl) id
  · refine ⟨nodup_insert _ _ _, fun k name => ?_⟩
    rw [mem_insert_iff, declares_insertAll]

/-- A second file of the town declares an event again, and a condition. -/
example : ((insertAll [("town", { PackageSource.empty with
      events := .ofList [("a", "folder b")] })]).insert "town"
    { PackageSource.empty with
      events := .ofList [("a", "folder c")], conditions := .ofList [("x", "sneak")] }).1 =
    [(.event, "a")] := by decide

end Sources

end Questbook
