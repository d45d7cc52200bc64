/-
Questbook/Table.lean

Finite maps as lists of pairs with distinct keys.

A `Table` is what every store of the engine is made of: definitions by name, players by
identity, sessions by player.  Its one view is `find?`; each operation comes with the equation
that says what it does to that view, and later modules reason by these equations alone.
Entries keep the order in which their keys first came in, so that listing a table is
deterministic; code whose answers must not depend on that order sorts first.
-/

namespace Questbook

universe u v w

/-- A finite map from `κ` to `ν`: pairs whose keys are pairwise distinct. -/
structure Table (κ : Type u) (ν : Type v) where
  entries : List (κ × ν)
  distinct : (entries.map Prod.fst).Nodup

namespace Table

variable {κ : Type u} {ν : Type v} {μ : Type w} [DecidableEq κ]

/-! ### Association lists -/

/-- The value under `k` in a list of pairs, the first one if there are several. -/
def lookup (k : κ) : List (κ × ν) → Option ν
  | [] => none
  | (k', v) :: rest => if k' = k then some v else lookup k rest

/-- Replace the value under `k`, or append the pair when `k` is new. -/
def put (k : κ) (v : ν) : List (κ × ν) → List (κ × ν)
  | [] => [(k, v)]
  | (k', v') :: rest => if k' = k then (k, v) :: rest else (k', v') :: put k v rest

/-- Leave out every pair under `k`. -/
def drop (k : κ) : List (κ × ν) → List (κ × ν)
  | [] => []
  | (k', v) :: rest => if k' = k then drop k rest else (k', v) :: drop k rest

theorem lookup_put (k k' : κ) (v : ν) (l : List (κ × ν)) :
    lookup k' (put k v l) = if k = k' then some v else lookup k' l := by
  induction l with
  | nil => simp [put, lookup]
  | cons e rest ih => grind [put, lookup]

theorem lookup_drop (k k' : κ) (l : List (κ × ν)) :
    lookup k' (drop k l) = if k = k' then none else lookup k' l := by
  induction l with
  | nil => simp [drop, lookup]
  | cons e rest ih => grind [drop, lookup]

theorem mem_keys_put {k a : κ} {v : ν} {l : List (κ × ν)} :
    a ∈ (put k v l).map Prod.fst ↔ a = k ∨ a ∈ l.map Prod.fst := by
  induction l with
  | nil => simp [put]
  | cons e rest ih => grind [put]

theorem nodup_keys_put (k : κ) (v : ν) {l : List (κ × ν)} (h : (l.map Prod.fst).Nodup) :
    ((put k v l).map Prod.fst).Nodup := by
  induction l with
  | nil => simp [put]
  | cons e rest ih =>
    obtain ⟨a, b⟩ := e
    rw [List.map_cons, List.nodup_cons] at h
    by_cases ha : a = k
    · subst ha
      rw [put, if_pos rfl, List.map_cons, List.nodup_cons]
      exact h
    · rw [put, if_neg ha, List.map_cons, List.nodup_cons]
      refine ⟨fun hm => ?_, ih h.2⟩
      rcases mem_keys_put.1 hm with hk | hk
      · exact ha hk
      · exact h.1 hk

theorem mem_of_mem_drop {k : κ} {e : κ × ν} {l : List (κ × ν)} (h : e ∈ drop k l) : e ∈ l := by
  induction l with
  | nil => simp [drop] at h
  | cons x rest ih =>
    obtain ⟨a, b⟩ := x
    by_cases ha : a = k
    · rw [drop, if_pos ha] at h
      exact List.mem_cons_of_mem _ (ih h)
    · rw [drop, if_neg ha] at h
      rcases List.mem_cons.1 h with rfl | h
      · exact List.mem_cons_self
      · exact List.mem_cons_of_mem _ (ih h)

theorem nodup_keys_drop (k : κ) {l : List (κ × ν)} (h : (l.map Prod.fst).Nodup) :
    ((drop k l).map Prod.fst).Nodup := by
  induction l with
  | nil => simp [drop]
  | cons e rest ih =>
    obtain ⟨a, b⟩ := e
    rw [List.map_cons, List.nodup_cons] at h
    by_cases ha : a = k
    · rw [drop, if_pos ha]
      exact ih h.2
    · rw [drop, if_neg ha, List.map_cons, List.nodup_cons]
      refine ⟨fun hm => h.1 ?_, ih h.2⟩
      obtain ⟨x, hx, hxa⟩ := List.mem_map.1 hm
      exact List.mem_map.2 ⟨x, mem_of_mem_drop hx, hxa⟩

/-! ### Operations -/

/-- The table without entries. -/
def empty : Table κ ν := ⟨[], by simp⟩

instance : EmptyCollection (Table κ ν) := ⟨empty⟩

instance : Inhabited (Table κ ν) := ⟨∅⟩

/-- The value under `k`, if there is one. -/
def find? (t : Table κ ν) (k : κ) : Option ν := lookup k t.entries

/-- Whether `k` has a value. -/
def contains (t : Table κ ν) (k : κ) : Bool := (t.find? k).isSome

/-- Set the value under `k`. -/
def insert (t : Table κ ν) (k : κ) (v : ν) : Table κ ν :=
  ⟨put k v t.entries, nodup_keys_put k v t.distinct⟩

/-- Remove `k`. -/
def erase (t : Table κ ν) (k : κ) : Table κ ν :=
  ⟨drop k t.entries, nodup_keys_drop k t.distinct⟩

/-- The keys, in the order in which they came in. -/
def keys (t : Table κ ν) : List κ := t.entries.map Prod.fst

/-- The values, in the order of their keys. -/
def values (t : Table κ ν) : List ν := t.entries.map Prod.snd

/-- How many keys have a value. -/
def size (t : Table κ ν) : Nat := t.entries.length

/-- Whether no key has a value. -/
def isEmpty (t : Table κ ν) : Bool := t.entries.isEmpty

/-- The table that a list of pairs describes; a later pair replaces an earlier one. -/
def ofList (l : List (κ × ν)) : Table κ ν := l.foldl (fun t e => t.insert e.1 e.2) ∅

/-- Map and filter the values, keeping the keys that `f` answers. -/
def filterMap (f : κ → ν → Option μ) (t : Table κ ν) : Table κ μ :=
  ofList (t.entries.filterMap fun e => (f e.1 e.2).map (e.1, ·))

/-! ### Tables with the same entries -/

omit [DecidableEq κ] in
theorem eq_of_entries {t t' : Table κ ν} (h : t.entries = t'.entries) : t = t' := by
  cases t
  cases t'
  cases h
  rfl

theorem put_put (k : κ) (v v' : ν) (l : List (κ × ν)) : put k v' (put k v l) = put k v' l := by
  induction l with
  | nil => simp [put]
  | cons e rest ih => grind [put]

theorem put_of_lookup {k : κ} {v : ν} {l : List (κ × ν)} (h : lookup k l = some v) :
    put k v l = l := by
  induction l with
  | nil => cases h
  | cons e rest ih => grind [put, lookup]

/-- Of two values that are set under a key the later one counts. -/
theorem insert_insert (t : Table κ ν) (k : κ) (v v' : ν) :
    (t.insert k v).insert k v' = t.insert k v' :=
  eq_of_entries (put_put k v v' t.entries)

/-- Setting the value that is there already changes nothing. -/
theorem insert_of_find? {t : Table κ ν} {k : κ} {v : ν} (h : t.find? k = some v) :
    t.insert k v = t :=
  eq_of_entries (put_of_lookup h)

/-! ### The view of each operation -/

theorem mem_keys_of_lookup {k : κ} {v : ν} {l : List (κ × ν)} (h : lookup k l = some v) :
    k ∈ l.map Prod.fst := by
  induction l with
  | nil => simp [lookup] at h
  | cons e rest ih => grind [lookup]

theorem lookup_isSome_of_mem_keys {k : κ} {l : List (κ × ν)} (h : k ∈ l.map Prod.fst) :
    (lookup k l).isSome := by
  induction l with
  | nil => simp at h
  | cons e rest ih => grind [lookup]

theorem mem_of_lookup {k : κ} {v : ν} {l : List (κ × ν)} (h : lookup k l = some v) :
    (k, v) ∈ l := by
  induction l with
  | nil => simp [lookup] at h
  | cons e rest ih => grind [lookup]

theorem lookup_of_mem {k : κ} {v : ν} {l : List (κ × ν)} (hl : (l.map Prod.fst).Nodup)
    (h : (k, v) ∈ l) : lookup k l = some v := by
  induction l with
  | nil => simp at h
  | cons e rest ih =>
    obtain ⟨a, b⟩ := e
    rw [List.map_cons, List.nodup_cons] at hl
    rcases List.mem_cons.1 h with heq | hrest
    · cases heq
      rw [lookup, if_pos rfl]
    · have hne : a ≠ k := fun hak => hl.1 (hak ▸ List.mem_map.2 ⟨(k, v), hrest, rfl⟩)
      rw [lookup, if_neg hne]
      exact ih hl.2 hrest

theorem mem_entries_of_find? {t : Table κ ν} {k : κ} {v : ν} (h : t.find? k = some v) :
    (k, v) ∈ t.entries :=
  mem_of_lookup h

theorem mem_keys_of_find? {t : Table κ ν} {k : κ} {v : ν} (h : t.find? k = some v) : k ∈ t.keys :=
  mem_keys_of_lookup h

theorem contains_iff_mem_keys {t : Table κ ν} {k : κ} : t.contains k = true ↔ k ∈ t.keys := by
  refine ⟨fun h => ?_, fun h => lookup_isSome_of_mem_keys h⟩
  obtain ⟨v, hv⟩ := Option.isSome_iff_exists.1 h
  exact mem_keys_of_find? hv

theorem find?_of_mem_entries {t : Table κ ν} {k : κ} {v : ν} (h : (k, v) ∈ t.entries) :
    t.find? k = some v :=
  lookup_of_mem t.distinct h

theorem mem_entries_iff {t : Table κ ν} {k : κ} {v : ν} : (k, v) ∈ t.entries ↔ t.find? k = some v :=
  ⟨find?_of_mem_entries, mem_entries_of_find?⟩

/-- The entries before and behind the one that is found have other keys. -/
theorem exists_entries_of_find? {t : Table κ ν} {k : κ} {v : ν} (h : t.find? k = some v) :
    ∃ before behind, t.entries = before ++ (k, v) :: behind ∧
      (∀ e ∈ before, e.1 ≠ k) ∧ ∀ e ∈ behind, e.1 ≠ k := by
  obtain ⟨before, behind, hentries⟩ := List.append_of_mem (mem_entries_of_find? h)
  have hdistinct := t.distinct
  rw [hentries, List.map_append, List.map_cons, List.nodup_append, List.nodup_cons] at hdistinct
  obtain ⟨-, ⟨hbehind, -⟩, hbefore⟩ := hdistinct
  refine ⟨before, behind, hentries, fun e he => ?_, fun e he hk => hbehind ?_⟩
  · exact hbefore e.1 (List.mem_map_of_mem he) k List.mem_cons_self
  · exact List.mem_map.2 ⟨e, he, hk⟩

theorem mem_values_iff {t : Table κ ν} {v : ν} : v ∈ t.values ↔ ∃ k, t.find? k = some v := by
  refine ⟨fun h => ?_, fun h => ?_⟩
  · obtain ⟨⟨k, w⟩, hmem, rfl⟩ := List.mem_map.1 h
    exact ⟨k, find?_of_mem_entries hmem⟩
  · obtain ⟨k, hk⟩ := h
    exact List.mem_map.2 ⟨(k, v), mem_entries_of_find? hk, rfl⟩

@[simp] theorem find?_empty (k : κ) : (∅ : Table κ ν).find? k = none := rfl

theorem find?_of_isEmpty {t : Table κ ν} (h : t.isEmpty = true) (k : κ) : t.find? k = none := by
  unfold find?
  rw [List.isEmpty_iff.1 h]
  rfl

theorem isEmpty_of_find? {t : Table κ ν} {k : κ} {v : ν} (h : t.find? k = some v) :
    t.isEmpty = false := by
  cases hempty : t.isEmpty with
  | false => rfl
  | true =>
    rw [find?_of_isEmpty hempty] at h
    cases h

theorem find?_insert (t : Table κ ν) (k k' : κ) (v : ν) :
    (t.insert k v).find? k' = if k = k' then some v else t.find? k' :=
  lookup_put k k' v t.entries

@[simp] theorem find?_insert_self (t : Table κ ν) (k : κ) (v : ν) :
    (t.insert k v).find? k = some v := by
  rw [find?_insert, if_pos rfl]

@[simp] theorem isEmpty_insert (t : Table κ ν) (k : κ) (v : ν) : (t.insert k v).isEmpty = false :=
  isEmpty_of_find? (t.find?_insert_self k v)

theorem find?_insert_of_ne (t : Table κ ν) {k k' : κ} (v : ν) (h : k ≠ k') :
    (t.insert k v).find? k' = t.find? k' := by
  rw [find?_insert, if_neg h]

theorem find?_erase (t : Table κ ν) (k k' : κ) :
    (t.erase k).find? k' = if k = k' then none else t.find? k' :=
  lookup_drop k k' t.entries

@[simp] theorem find?_erase_self (t : Table κ ν) (k : κ) : (t.erase k).find? k = none := by
  rw [find?_erase, if_pos rfl]

theorem find?_erase_of_ne (t : Table κ ν) {k k' : κ} (h : k ≠ k') :
    (t.erase k).find? k' = t.find? k' := by
  rw [find?_erase, if_neg h]

theorem find?_foldl_insert (l : List (κ × ν)) (t : Table κ ν) (k : κ) :
    (l.foldl (fun t e => t.insert e.1 e.2) t).find? k =
      ((l.reverse.find? fun e => e.1 = k).map Prod.snd).or (t.find? k) := by
  induction l generalizing t with
  | nil => rfl
  | cons e rest ih =>
    rw [List.foldl_cons, ih, List.reverse_cons, List.find?_append, find?_insert]
    cases rest.reverse.find? fun e => e.1 = k with
    | some x => rfl
    | none => by_cases hk : e.1 = k <;> simp [hk]

/-- What a table that a list describes has was in the list. -/
theorem mem_of_find?_ofList {l : List (κ × ν)} {k : κ} {v : ν} (h : (ofList l).find? k = some v) :
    (k, v) ∈ l := by
  rw [ofList, find?_foldl_insert, find?_empty, Option.or_none, Option.map_eq_some_iff] at h
  obtain ⟨e, he, rfl⟩ := h
  obtain rfl : e.1 = k := by simpa using List.find?_some he
  exact List.mem_reverse.1 (List.mem_of_find?_eq_some he)

theorem contains_ofList {l : List (κ × ν)} {k : κ} {v : ν} (h : (k, v) ∈ l) :
    (ofList l).contains k = true := by
  rw [contains, ofList, find?_foldl_insert, find?_empty, Option.or_none, Option.isSome_map,
    List.find?_isSome]
  exact ⟨(k, v), List.mem_reverse.2 h, by simp⟩

end Table

end Questbook
