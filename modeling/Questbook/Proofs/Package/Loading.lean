/-
Questbook/Proofs/Package/Loading.lean

What is loaded from a tree of files.

The order in which a folder lists its entries has no part in it, at no depth, nor has what stands in
a file that holds no package.  Of the entries that name a package the one with the least name is
taken, so a folder `n` rather than the file `n.toml`.  Its files stand in the order of their paths,
name by name, and of those that declare something the last one has it:

    (p.lines k).find? name = some l  ↔  the last file that declares `name` for `k` has the line `l`.

All that loading looks at in an entry is its `Digest`.  Entries that are listed in another order
have the same digests in another order, and digests are sorted by names, of which a folder has no
two alike.

Main result: `loaded_by_files`.
-/
import Mathlib.Data.List.Nodup
import Questbook.Proofs.Names
import Questbook.Proofs.Package.Merging

namespace Questbook

namespace Entry

open PackageSource (overlay find?_foldl_merge)

variable {parse : String → Option Json}

/-! ### Trees of files -/

@[elab_as_elim]
theorem induction {P : Entry → Prop} (file : ∀ content, P (file content))
    (folder : ∀ es : List (String × Entry), (∀ x ∈ es, P x.2) → P (folder es)) (e : Entry) : P e :=
  @Entry.rec P (fun es => ∀ x ∈ es, P x.2) (fun x => P x.2) file folder (by simp)
    (fun _ _ hx hes => List.forall_mem_cons.2 ⟨hx, hes⟩) (fun _ _ h => h) e

/-- No folder has two entries of one name. -/
inductive Tidy : Entry → Prop
  | file (content : ByteArray) : Tidy (file content)
  | nil : Tidy (folder [])
  | cons {name : String} {e : Entry} {es : List (String × Entry)} :
      name ∉ es.map Prod.fst → Tidy e → Tidy (folder es) → Tidy (folder ((name, e) :: es))

/-- The same files and folders: a folder may list its entries in another order, at any depth, and a
file may hold something else, if it is read as the same package or neither of the two is read. -/
inductive Alike (parse : String → Option Json) : Entry → Entry → Prop
  | file {content content' : ByteArray} :
      source? parse (file content) = source? parse (file content') →
        Alike parse (file content) (file content')
  | nil : Alike parse (folder []) (folder [])
  | cons (name : String) {e e' : Entry} {es es' : List (String × Entry)} :
      Alike parse e e' → Alike parse (folder es) (folder es') →
        Alike parse (folder ((name, e) :: es)) (folder ((name, e') :: es'))
  | swap (x y : String × Entry) (es : List (String × Entry)) :
      Alike parse (folder (x :: y :: es)) (folder (y :: x :: es))
  | trans {e e' e'' : Entry} : Alike parse e e' → Alike parse e' e'' → Alike parse e e''

/-- The entries of a folder; a file has none. -/
def inside : Entry → List (String × Entry)
  | file _ => []
  | folder es => es

/-- A file below an entry, by the names on the way to it. -/
inductive Holds : String × Entry → List String → ByteArray → Prop
  | file (name : String) (content : ByteArray) : Holds (name, file content) [name] content
  | folder (name : String) {es : List (String × Entry)} {x : String × Entry} {path : List String}
      {content : ByteArray} :
      x ∈ es → Holds x path content → Holds (name, folder es) (name :: path) content

/-- Whether the file at a path is a TOML file. -/
def IsToml (path : List String) : Prop := ∃ name ∈ path.getLast?, (stem? name).isSome = true

/-- The order of paths, name by name. -/
def Precedes : List String → List String → Prop :=
  List.Lex fun a b => Text.atMost a b = true ∧ a ≠ b

/-- At a path below an entry there is a TOML file with a package that can be read. -/
def Offers (parse : String → Option Json) (x : String × Entry) (path : List String)
    (src : PackageSource) : Prop :=
  ∃ content, Holds x path content ∧ IsToml path ∧ source? parse (file content) = some src

/-- The last of the TOML files below an entry that declare a name for a kind. -/
structure Decides (parse : String → Option Json) (x : String × Entry) (k : Kind) (name : String)
    (path : List String) (src : PackageSource) : Prop where
  offers : Offers parse x path src
  declares : src.declares k name = true
  last : ∀ path' src', Offers parse x path' src' → src'.declares k name = true →
    path' = path ∨ Precedes path' path

/-- A package has of everything that is declared below an entry what the last file says that
declares it. -/
structure Gathers (parse : String → Option Json) (x : String × Entry) (p : PackageSource) :
    Prop where
  line : ∀ k name l, (p.lines k).find? name = some l ↔
    ∃ path src, Decides parse x k name path src ∧ (src.lines k).find? name = some l
  conversation : ∀ name c, p.conversations.find? name = some c ↔
    ∃ path src, Decides parse x .conversation name path src ∧ src.conversations.find? name = some c

/-- An entry of the package folder names a package: a folder by its name, a TOML file by its name
without the ending. -/
inductive Names (n : String) : String × Entry → Prop
  | folder (es : List (String × Entry)) : Names n (n, folder es)
  | file (content : ByteArray) : Names n (n ++ ".toml", file content)

/-- The first entry of the package folder, in the order of names, that names a package. -/
structure First (n : String) (es : List (String × Entry)) (x : String × Entry) : Prop where
  mem : x ∈ es
  names : Names n x
  least : ∀ y ∈ es, Names n y → Text.atMost x.1 y.1 = true

theorem tidy_folder_iff {es : List (String × Entry)} :
    Tidy (folder es) ↔ (es.map Prod.fst).Nodup ∧ ∀ x ∈ es, Tidy x.2 := by
  induction es with
  | nil => simp [Tidy.nil]
  | cons x es ih =>
    obtain ⟨name, e⟩ := x
    rw [List.map_cons, List.nodup_cons, List.forall_mem_cons]
    constructor
    · rintro (_ | _ | ⟨hname, he, hes⟩)
      exact ⟨⟨hname, (ih.1 hes).1⟩, he, (ih.1 hes).2⟩
    · rintro ⟨⟨hname, hnodup⟩, he, hes⟩
      exact .cons hname he (ih.2 ⟨hnodup, hes⟩)

theorem Alike.refl (e : Entry) : Alike parse e e := by
  induction e using Entry.induction with
  | file content => exact .file rfl
  | folder es ih =>
    induction es with
    | nil => exact .nil
    | cons x es ihes =>
      obtain ⟨hx, hes⟩ := List.forall_mem_cons.1 ih
      exact .cons x.1 hx (ihes hes)

/-- A folder that lists its entries in any other order is the same. -/
theorem Alike.of_perm {es es' : List (String × Entry)} (h : es.Perm es') :
    Alike parse (folder es) (folder es') := by
  induction h with
  | nil => exact .nil
  | cons x _ ih => exact .cons x.1 (refl x.2) ih
  | swap x y es => exact .swap y x es
  | trans _ _ ih ih' => exact ih.trans ih'

/-- Under the names of one tree the other one has entries that are alike. -/
theorem Alike.exists_inside {e e' : Entry} (h : Alike parse e e') :
    ∀ x ∈ e.inside, ∃ e'', (x.1, e'') ∈ e'.inside ∧ Alike parse x.2 e'' := by
  induction h with
  | file _ => simp [inside]
  | nil => simp [inside]
  | cons name halike _ _ ih =>
    refine List.forall_mem_cons.2 ⟨⟨_, List.mem_cons_self, halike⟩, fun x hx => ?_⟩
    obtain ⟨e'', he'', halike⟩ := ih x hx
    exact ⟨e'', List.mem_cons_of_mem _ he'', halike⟩
  | swap x y es => exact fun z hz => ⟨z.2, (List.Perm.swap y x es).mem_iff.1 hz, refl z.2⟩
  | trans _ _ ih ih' =>
    intro x hx
    obtain ⟨e', he', halike⟩ := ih x hx
    obtain ⟨e'', he'', halike'⟩ := ih' _ he'
    exact ⟨e'', he'', halike.trans halike'⟩

/-! ### What loading looks at -/

/-- What loading looks at in an entry: its name, whether it is a folder, and the packages in its
TOML files. -/
structure Digest where
  name : String
  isFolder : Bool
  readings : List PackageSource

/-- The digest of an entry. -/
def digest (parse : String → Option Json) (x : String × Entry) : Digest :=
  ⟨x.1, x.2.isFolder, (tomlFiles x.1 x.2).filterMap (source? parse)⟩

/-- The digests of the entries of a folder, in ascending order of names. -/
def digests (parse : String → Option Json) (es : List (String × Entry)) : List Digest :=
  (ascending es).map (digest parse)

theorem digests_perm (es : List (String × Entry)) :
    (digests parse es).Perm (es.map (digest parse)) :=
  (List.mergeSort_perm _ _).map _

theorem pairwise_digests (es : List (String × Entry)) :
    (digests parse es).Pairwise fun a b => Text.atMost a.name b.name = true :=
  List.pairwise_map.2 (Text.isOrdering.pairwise_mergeSort Prod.fst es)

theorem names_digest (es : List (String × Entry)) :
    (es.map (digest parse)).map Digest.name = es.map Prod.fst := by
  rw [List.map_map]
  rfl

theorem names_perm {es es' : List (String × Entry)}
    (h : (es.map (digest parse)).Perm (es'.map (digest parse))) :
    (es.map Prod.fst).Perm (es'.map Prod.fst) := by
  rw [← names_digest, ← names_digest]
  exact h.map _

theorem nodup_digests {es : List (String × Entry)} (h : (es.map Prod.fst).Nodup) :
    ((digests parse es).map Digest.name).Nodup := by
  rwa [((digests_perm es).map _).nodup_iff, names_digest]

/-- Sorted by names that are all different, digests do not tell the order in which they came. -/
theorem digests_congr {es es' : List (String × Entry)} (h : (es.map Prod.fst).Nodup)
    (hperm : (es.map (digest parse)).Perm (es'.map (digest parse))) :
    digests parse es = digests parse es' := by
  have hsame : (digests parse es).Perm (digests parse es') :=
    (digests_perm es).trans (hperm.trans (digests_perm es').symm)
  refine hsame.eq_of_pairwise ?_ (pairwise_digests es) (pairwise_digests es')
  intro a b ha hb hab hba
  exact List.inj_on_of_nodup_map (nodup_digests h) ha (hsame.mem_iff.2 hb)
    (Text.isOrdering.antisymm _ _ hab hba)

theorem filesBelow_eq_map (es : List (String × Entry)) :
    filesBelow es = es.map fun x => (x.1, tomlFiles x.1 x.2) := by
  induction es with
  | nil => rfl
  | cons x es ih =>
    rw [filesBelow, ih]
    rfl

theorem tomlFiles_folder (name : String) (es : List (String × Entry)) :
    tomlFiles name (folder es) = (ascending es).flatMap fun x => tomlFiles x.1 x.2 := by
  have hsorted : (ascending es).map (fun x => (x.1, tomlFiles x.1 x.2)) =
      (filesBelow es).mergeSort fun a b => Text.atMost a.1 b.1 := by
    rw [filesBelow_eq_map]
    exact List.map_mergeSort fun _ _ _ _ => rfl
  rw [tomlFiles, ← hsorted, List.flatMap_map]

theorem readings_folder (name : String) (es : List (String × Entry)) :
    (digest parse (name, folder es)).readings = (digests parse es).flatMap Digest.readings := by
  rw [digest, tomlFiles_folder, List.filterMap_flatMap, digests, List.flatMap_map]
  rfl

theorem digest_folder_congr {es es' : List (String × Entry)} (h : (es.map Prod.fst).Nodup)
    (hperm : (es.map (digest parse)).Perm (es'.map (digest parse))) (name : String) :
    digest parse (name, folder es) = digest parse (name, folder es') := by
  have hreadings : (digest parse (name, folder es)).readings =
      (digest parse (name, folder es')).readings := by
    rw [readings_folder, readings_folder, digests_congr h hperm]
  exact congrArg (Digest.mk name true) hreadings

/-- The same digest under every name, and inside the same digests in another order. -/
structure SameDigests (parse : String → Option Json) (e e' : Entry) : Prop where
  tidy : Tidy e'
  digest_eq : ∀ name, digest parse (name, e) = digest parse (name, e')
  perm : (e.inside.map (digest parse)).Perm (e'.inside.map (digest parse))

theorem SameDigests.of_perm {es es' : List (String × Entry)} (htidy : Tidy (folder es'))
    (hperm : (es.map (digest parse)).Perm (es'.map (digest parse))) :
    SameDigests parse (folder es) (folder es') :=
  have hnodup := (names_perm hperm).nodup_iff.2 (tidy_folder_iff.1 htidy).1
  ⟨htidy, digest_folder_congr hnodup hperm, hperm⟩

/-- Loading cannot tell trees apart that are alike. -/
theorem Alike.sameDigests {e e' : Entry} (h : Alike parse e e') (he : Tidy e) :
    SameDigests parse e e' := by
  induction h with
  | file hsource =>
    refine ⟨.file _, fun name => ?_, .refl _⟩
    unfold digest tomlFiles
    split <;> simp only [List.filterMap_cons, List.filterMap_nil, hsource, isFolder]
  | nil => exact .of_perm he (.refl _)
  | cons name _ _ ih ihes =>
    obtain ⟨hnodup, hall⟩ := tidy_folder_iff.1 he
    rw [List.map_cons, List.nodup_cons] at hnodup
    obtain ⟨hhead, hrest⟩ := List.forall_mem_cons.1 hall
    have hsame := ih hhead
    have hsames := ihes (tidy_folder_iff.2 ⟨hnodup.2, hrest⟩)
    have hname := mt (names_perm hsames.perm).mem_iff.2 hnodup.1
    refine .of_perm (.cons hname hsame.tidy hsames.tidy) ?_
    rw [List.map_cons, List.map_cons, hsame.digest_eq]
    exact hsames.perm.cons _
  | swap x y es =>
    have hperm : (x :: y :: es).Perm (y :: x :: es) := .swap y x es
    obtain ⟨hnodup, hall⟩ := tidy_folder_iff.1 he
    refine .of_perm (tidy_folder_iff.2 ⟨((hperm.map _).nodup_iff).1 hnodup, fun z hz => ?_⟩)
      (hperm.map _)
    exact hall z (hperm.mem_iff.2 hz)
  | trans _ _ ih ih' =>
    have hsame := ih he
    have hsame' := ih' hsame.tidy
    exact ⟨hsame'.tidy, fun name => (hsame.digest_eq name).trans (hsame'.digest_eq name),
      hsame.perm.trans hsame'.perm⟩

/-! ### Packages by digests -/

/-- The name of the package that an entry names. -/
def packageName? (name : String) (isFolder : Bool) : Option String :=
  if isFolder then some name else stem? name

/-- The package in the files of an entry. -/
def Digest.gathered (d : Digest) : PackageSource := d.readings.foldl PackageSource.merge .empty

/-- Take in an entry, unless its name is no name of a package or its package is there already. -/
def take (s : Sources) (d : Digest) : Sources :=
  match packageName? d.name d.isFolder with
  | none => s
  | some n =>
    if !isPackageName n || s.packages.contains n then s else (s.insert n d.gathered).2

theorem package?_eq (name : String) (e : Entry) :
    package? name e = (packageName? name e.isFolder).map (·, tomlFiles name e) := by
  cases e with
  | folder es => rfl
  | file content =>
    unfold packageName? isFolder package? tomlFiles
    cases hstem : stem? name <;> rfl

theorem sources_eq (es : List (String × Entry)) :
    sources parse es = (digests parse es).foldl take Sources.empty := by
  unfold sources digests
  rw [List.foldl_map]
  congr
  funext s x
  rw [package?_eq, take]
  show _ = match packageName? x.1 x.2.isFolder with
    | none => s
    | some n => _
  cases packageName? x.1 x.2.isFolder <;> rfl

theorem sources_congr {es es' : List (String × Entry)} (h : Alike parse (folder es) (folder es'))
    (htidy : Tidy (folder es)) : sources parse es = sources parse es' := by
  have hdigests : digests parse es = digests parse es' :=
    digests_congr (tidy_folder_iff.1 htidy).1 (h.sameDigests htidy).perm
  rw [sources_eq, sources_eq, hdigests]

/-- The package that an entry has under a name. -/
def Digest.under? (d : Digest) (n : String) : Option PackageSource :=
  if isPackageName n ∧ packageName? d.name d.isFolder = some n then some d.gathered else none

theorem find?_take (s : Sources) (d : Digest) (n : String) :
    (take s d).packages.find? n = (s.packages.find? n).or (d.under? n) := by
  unfold take Digest.under?
  cases hname : packageName? d.name d.isFolder with
  | none => simp
  | some m =>
    by_cases hskip : (!isPackageName m || s.packages.contains m) = true
    · simp only [hskip, if_true, Option.some.injEq]
      split
      · next hn =>
        obtain ⟨hadmissible, rfl⟩ := hn
        have hthere : s.packages.contains m = true := by simpa [hadmissible] using hskip
        exact (Option.or_of_isSome hthere).symm
      · rw [Option.or_none]
    · obtain ⟨hadmissible, hnone⟩ : isPackageName m = true ∧ s.packages.find? m = none := by
        simpa [Table.contains] using hskip
      have hinsert : s.insert m d.gathered = ([], ⟨s.packages.insert m d.gathered⟩) := by
        rw [Sources.insert, hnone]
      by_cases hmn : m = n
      · subst hmn
        simp [hinsert, hadmissible, hnone, Table.contains]
      · simp [hskip, hinsert, hmn, Table.find?_insert_of_ne]

theorem find?_foldl_take (l : List Digest) (s : Sources) (n : String) :
    (l.foldl take s).packages.find? n =
      (s.packages.find? n).or (l.findSome? fun d => d.under? n) := by
  induction l generalizing s with
  | nil => simp
  | cons d l ih =>
    rw [List.foldl_cons, ih, find?_take, Option.or_assoc, List.findSome?_cons]
    cases d.under? n <;> rfl

/-- The first digest that names the package decides. -/
theorem find?_sources (es : List (String × Entry)) (n : String) :
    (sources parse es).packages.find? n = (digests parse es).findSome? fun d => d.under? n := by
  rw [sources_eq, find?_foldl_take]
  rfl

/-! ### The entry that is taken -/

theorem stem?_eq_some_iff {name n : String} :
    stem? name = some n ↔ name = n ++ ".toml" ∧ n ≠ "" := by
  have hends : name = n ++ ".toml" ↔
      name.toList.reverse = ['l', 'm', 'o', 't', '.'] ++ n.toList.reverse := by
    rw [List.reverse_eq_iff, List.reverse_append, List.reverse_reverse, ← String.toList_inj]
    simp
  rw [hends]
  unfold stem?
  constructor
  · intro h
    split at h
    · next c rest hreverse =>
      obtain rfl := Option.some.inj h
      exact ⟨by simp [hreverse], fun hempty => by simpa using congrArg String.toList hempty⟩
    · cases h
  · rintro ⟨hreverse, hn⟩
    have hletters : n.toList.reverse ≠ [] := fun hnil => hn (by simpa using hnil)
    obtain ⟨c, rest, hcons⟩ := List.exists_cons_of_ne_nil hletters
    rw [hreverse, hcons]
    show some (String.ofList (c :: rest).reverse) = some n
    rw [← hcons, List.reverse_reverse, String.ofList_toList]

theorem packageName?_eq_some_iff {x : String × Entry} {n : String} (hn : n ≠ "") :
    packageName? x.1 x.2.isFolder = some n ↔ Names n x := by
  obtain ⟨name, content | es⟩ := x
  · show stem? name = some n ↔ _
    rw [stem?_eq_some_iff]
    constructor
    · rintro ⟨rfl, -⟩
      exact .file content
    · rintro ⟨⟩
      exact ⟨rfl, hn⟩
  · show some name = some n ↔ _
    constructor
    · rintro ⟨⟩
      exact .folder es
    · rintro ⟨⟩
      rfl

theorem under?_digest {x : String × Entry} {n : String} (hn : isPackageName n = true)
    (h : Names n x) : (digest parse x).under? n = some (digest parse x).gathered :=
  if_pos ⟨hn, (packageName?_eq_some_iff (isPackageName_iff.1 hn).1).2 h⟩

theorem under?_digest_eq_none {x : String × Entry} {n : String}
    (h : isPackageName n = true → ¬ Names n x) : (digest parse x).under? n = none :=
  if_neg fun ⟨hn, hname⟩ =>
    h hn ((packageName?_eq_some_iff (isPackageName_iff.1 hn).1).1 hname)

theorem find?_sources_eq_none {es : List (String × Entry)} {n : String}
    (h : isPackageName n = true → ∀ x ∈ es, ¬ Names n x) :
    (sources parse es).packages.find? n = none := by
  rw [find?_sources, List.findSome?_eq_none_iff]
  intro d hd
  obtain ⟨x, hx, rfl⟩ := List.mem_map.1 ((digests_perm es).mem_iff.1 hd)
  exact under?_digest_eq_none fun hn => h hn x hx

/-- The package of a name is that of the first entry that names it. -/
theorem First.find?_sources {es : List (String × Entry)} {n : String} {x : String × Entry}
    (h : First n es x) (htidy : Tidy (folder es)) (hn : isPackageName n = true) :
    (sources parse es).packages.find? n = some (digest parse x).gathered := by
  obtain ⟨before, behind, hsplit⟩ :
      ∃ before behind, digests parse es = before ++ digest parse x :: behind :=
    List.append_of_mem ((digests_perm es).mem_iff.2 (List.mem_map_of_mem h.mem))
  have hsorted : (digests parse es).Pairwise fun a b => Text.atMost a.name b.name = true :=
    pairwise_digests es
  have hnodup : ((digests parse es).map Digest.name).Nodup :=
    nodup_digests (tidy_folder_iff.1 htidy).1
  rw [hsplit, List.pairwise_append] at hsorted
  rw [hsplit, List.map_append, List.nodup_append] at hnodup
  rw [Entry.find?_sources, List.findSome?_eq_some_iff]
  refine ⟨before, digest parse x, behind, hsplit, under?_digest hn h.names, fun d hd => ?_⟩
  have hmem : d ∈ digests parse es := hsplit ▸ List.mem_append_left _ hd
  obtain ⟨y, hy, rfl⟩ := List.mem_map.1 ((digests_perm es).mem_iff.1 hmem)
  refine under?_digest_eq_none fun _ hnames => ?_
  -- both names come first, so they are one name, which stands in the folder once
  have hxy := h.least y hy hnames
  have hyx := hsorted.2.2 _ hd _ List.mem_cons_self
  exact hnodup.2.2 y.1 (List.mem_map_of_mem hd) x.1 (by simp [digest])
    (Text.isOrdering.antisymm _ _ hyx hxy)

/-! ### The order of files -/

theorem Holds.exists_cons {x : String × Entry} {path : List String} {content : ByteArray}
    (h : Holds x path content) : ∃ rest, path = x.1 :: rest := by
  cases h with
  | file name content => exact ⟨[], rfl⟩
  | folder name _ _ => exact ⟨_, rfl⟩

theorem offers_file_iff {name : String} {content : ByteArray} {path : List String}
    {src : PackageSource} : Offers parse (name, file content) path src ↔
      path = [name] ∧ (stem? name).isSome = true ∧ source? parse (file content) = some src := by
  constructor
  · rintro ⟨_, ⟨_, _⟩, ⟨last, hlast, htoml⟩, hsource⟩
    obtain rfl : name = last := by simpa using hlast
    exact ⟨rfl, htoml, hsource⟩
  · rintro ⟨rfl, htoml, hsource⟩
    exact ⟨content, .file name content, ⟨name, by simp, htoml⟩, hsource⟩

theorem offers_folder_iff {name : String} {es : List (String × Entry)} {path : List String}
    {src : PackageSource} : Offers parse (name, folder es) path src ↔
      ∃ x ∈ es, ∃ rest, path = name :: rest ∧ Offers parse x rest src := by
  constructor
  · rintro ⟨content, hholds, ⟨last, hlast, htoml⟩, hsource⟩
    cases hholds with
    | @folder _ _ x rest _ hx hbelow =>
      obtain ⟨rest, rfl⟩ := hbelow.exists_cons
      exact ⟨x, hx, _, rfl, content, hbelow, ⟨last, by simpa using hlast, htoml⟩, hsource⟩
  · rintro ⟨x, hx, rest, rfl, content, hbelow, ⟨last, hlast, htoml⟩, hsource⟩
    obtain ⟨rest, rfl⟩ := hbelow.exists_cons
    exact ⟨content, .folder name hx hbelow, ⟨last, by simpa using hlast, htoml⟩, hsource⟩

/-- The readings of an entry are those of its TOML files in the order of their paths. -/
structure Walk (parse : String → Option Json) (x : String × Entry)
    (walk : List (List String × PackageSource)) : Prop where
  readings : (digest parse x).readings = walk.map Prod.snd
  sorted : walk.Pairwise fun a b => Precedes a.1 b.1
  mem_iff : ∀ path src, (path, src) ∈ walk ↔ Offers parse x path src

theorem mem_readings_file {name : String} {content : ByteArray} {src : PackageSource} :
    src ∈ (digest parse (name, file content)).readings ↔
      (stem? name).isSome = true ∧ source? parse (file content) = some src := by
  unfold digest tomlFiles
  split
  · next htoml => simp [htoml]
  · next htoml => simp [htoml]

theorem walk_file (name : String) (content : ByteArray) :
    ∃ walk, Walk parse (name, file content) walk := by
  refine ⟨(digest parse (name, file content)).readings.map ([name], ·), ?_, ?_, fun path src => ?_⟩
  · rw [List.map_map]
    exact (List.map_id _).symm
  · -- there is one file, if any
    unfold digest tomlFiles
    split
    · cases hsource : source? parse (file content) <;> simp [hsource]
    · simp
  · rw [offers_file_iff, List.mem_map, ← mem_readings_file]
    constructor
    · rintro ⟨_, hsrc, ⟨⟩⟩
      exact ⟨rfl, hsrc⟩
    · rintro ⟨rfl, hsrc⟩
      exact ⟨src, hsrc, rfl⟩

/-- In a folder the files of one entry come before those of the next. -/
theorem walk_folder (name : String) {es : List (String × Entry)}
    (hnodup : (es.map Prod.fst).Nodup) (h : ∀ x ∈ es, ∃ walk, Walk parse x walk) :
    ∃ walk, Walk parse (name, folder es) walk := by
  choose! walk hwalk using h
  have hmem : ∀ {x}, x ∈ ascending es ↔ x ∈ es := (List.mergeSort_perm _ _).mem_iff
  refine ⟨(ascending es).flatMap fun x => (walk x).map fun f => (name :: f.1, f.2), ?_, ?_, ?_⟩
  · rw [readings_folder, digests, List.flatMap_map, List.map_flatMap]
    refine List.flatMap_congr fun x hx => ?_
    rw [(hwalk x (hmem.1 hx)).readings, List.map_map]
    rfl
  · -- The names in a folder differ and ascend, and paths compare by the name they begin with.
    have hsorted : (ascending es).Pairwise fun x y => Text.atMost x.1 y.1 = true :=
      Text.isOrdering.pairwise_mergeSort Prod.fst es
    have hdistinct : (ascending es).Pairwise fun x y => x.1 ≠ y.1 :=
      List.pairwise_map.1 (((List.mergeSort_perm _ _).map Prod.fst).nodup_iff.2 hnodup)
    refine List.pairwise_flatMap.2 ⟨fun x hx => ?_, ?_⟩
    · exact List.pairwise_map.2 ((hwalk x (hmem.1 hx)).sorted.imp fun hlt => .cons hlt)
    · refine (hsorted.and hdistinct).imp_of_mem fun {x y} hx hy hlt => ?_
      simp only [List.forall_mem_map]
      intro f hf g hg
      obtain ⟨_, hfholds, -⟩ := ((hwalk x (hmem.1 hx)).mem_iff f.1 f.2).1 hf
      obtain ⟨_, hgholds, -⟩ := ((hwalk y (hmem.1 hy)).mem_iff g.1 g.2).1 hg
      obtain ⟨rest, hrest⟩ := hfholds.exists_cons
      obtain ⟨rest', hrest'⟩ := hgholds.exists_cons
      rw [hrest, hrest']
      exact .cons (.rel hlt)
  · intro path src
    rw [offers_folder_iff, List.mem_flatMap]
    constructor
    · rintro ⟨x, hx, hin⟩
      obtain ⟨f, hf, ⟨⟩⟩ := List.mem_map.1 hin
      exact ⟨x, hmem.1 hx, f.1, rfl, ((hwalk x (hmem.1 hx)).mem_iff _ _).1 hf⟩
    · rintro ⟨x, hx, rest, rfl, hoffers⟩
      refine ⟨x, hmem.2 hx, List.mem_map.2 ⟨(rest, src), ?_, rfl⟩⟩
      exact ((hwalk x hx).mem_iff _ _).2 hoffers

theorem exists_walk {e : Entry} (name : String) (h : Tidy e) :
    ∃ walk, Walk parse (name, e) walk := by
  induction e using Entry.induction generalizing name with
  | file content => exact walk_file name content
  | folder es ih =>
    obtain ⟨hnodup, hall⟩ := tidy_folder_iff.1 h
    exact walk_folder name hnodup fun x hx => ih x hx x.1 (hall x hx)

/-! ### The file that decides -/

theorem precedes_asymm {a b : List String} (h : Precedes a b) : ¬ Precedes b a := by
  induction h with
  | nil => rintro ⟨⟩
  | cons _ ih =>
    intro hback
    cases hback with
    | cons hback => exact ih hback
    | rel hlt => exact hlt.2 rfl
  | rel hlt =>
    intro hback
    cases hback with
    | cons _ => exact hlt.2 rfl
    | rel hgt => exact hlt.2 (Text.isOrdering.antisymm _ _ hlt.1 hgt.1)

/-- Of the files that answer a question the last one is asked. -/
theorem Walk.findSome?_eq_some_iff {ν : Type} {x : String × Entry}
    {walk : List (List String × PackageSource)} (h : Walk parse x walk)
    {ask : PackageSource → Option ν} {v : ν} :
    (digest parse x).readings.reverse.findSome? ask = some v ↔ ∃ path src, Offers parse x path src ∧
      ask src = some v ∧ ∀ path' src', Offers parse x path' src' → (ask src').isSome = true →
        path' = path ∨ Precedes path' path := by
  have hsorted : walk.reverse.Pairwise fun a b => Precedes b.1 a.1 :=
    List.pairwise_reverse.2 h.sorted
  have hmem : ∀ {f}, f ∈ walk.reverse ↔ Offers parse x f.1 f.2 :=
    fun {f} => List.mem_reverse.trans (h.mem_iff f.1 f.2)
  -- From its end on, the walk comes upon the last file that answers first.
  rw [h.readings, ← List.map_reverse, List.findSome?_map, List.findSome?_eq_some_iff]
  constructor
  · rintro ⟨later, f, earlier, hsplit, hv, hnone⟩
    refine ⟨f.1, f.2, hmem.1 (by simp [hsplit]), hv, fun path' src' hoffers hsome => ?_⟩
    rw [hsplit, List.pairwise_append, List.pairwise_cons] at hsorted
    have hin : (path', src') ∈ later ++ f :: earlier := hsplit ▸ hmem.2 hoffers
    rcases List.mem_append.1 hin with hlater | hin
    · have hsilent : ask src' = none := hnone _ hlater
      rw [hsilent] at hsome
      cases hsome
    · rcases List.mem_cons.1 hin with rfl | hearlier
      · exact .inl rfl
      · exact .inr (hsorted.2.1.1 _ hearlier)
  · rintro ⟨path, src, hoffers, hv, hlast⟩
    obtain ⟨later, earlier, hsplit⟩ := List.append_of_mem (hmem.2 hoffers : (path, src) ∈ _)
    refine ⟨later, (path, src), earlier, hsplit, hv, fun f hf => ?_⟩
    have hafter : Precedes path f.1 := by
      rw [hsplit, List.pairwise_append] at hsorted
      exact hsorted.2.2 f hf _ List.mem_cons_self
    have hin : f ∈ walk.reverse := hsplit ▸ List.mem_append_left _ hf
    by_contra hsome
    rcases hlast f.1 f.2 (hmem.1 hin) (Option.isSome_iff_ne_none.2 hsome) with heq | hbefore
    · exact precedes_asymm (heq ▸ hafter) (heq ▸ hafter)
    · exact precedes_asymm hafter hbefore

/-- What is gathered below an entry, for a table of packages that has what they declare for a
kind. -/
theorem gathered_iff {ν : Type} {x : String × Entry} (h : Tidy x.2) {k : Kind} {name : String}
    {table : PackageSource → Table String ν}
    (hmerge : ∀ p later : PackageSource, table (p.merge later) = overlay (table later) (table p))
    (hempty : table .empty = ∅)
    (hdeclares : ∀ src : PackageSource, (table src).contains name = src.declares k name) {v : ν} :
    (table (digest parse x).gathered).find? name = some v ↔
      ∃ path src, Decides parse x k name path src ∧ (table src).find? name = some v := by
  obtain ⟨walk, hwalk⟩ := exists_walk x.1 h
  rw [Digest.gathered, find?_foldl_merge hmerge, hempty, Table.find?_empty, Option.or_none,
    hwalk.findSome?_eq_some_iff]
  constructor
  · rintro ⟨path, src, hoffers, hv, hlast⟩
    have hdeclared : (table src).contains name = true := by rw [Table.contains, hv]; rfl
    refine ⟨path, src, ⟨hoffers, hdeclares src ▸ hdeclared, fun path' src' hoffers' h' => ?_⟩, hv⟩
    exact hlast path' src' hoffers' ((hdeclares src').trans h')
  · rintro ⟨path, src, ⟨hoffers, -, hlast⟩, hv⟩
    exact ⟨path, src, hoffers, hv, fun path' src' hoffers' h' =>
      hlast path' src' hoffers' ((hdeclares src').symm.trans h')⟩

theorem gathers_digest {x : String × Entry} (h : Tidy x.2) :
    Gathers parse x (digest parse x).gathered where
  line k name l := by
    cases k with
    | conversation =>
      -- conversations have no lines
      refine ⟨fun hl => ?_, fun ⟨_, _, _, hl⟩ => ?_⟩ <;> simp [PackageSource.lines] at hl
    | _ =>
      exact gathered_iff h (fun _ _ => rfl) rfl fun _ => rfl
  conversation _ _ := gathered_iff h (fun _ _ => rfl) rfl fun _ => rfl

/-! ### The package folder -/

theorem atMost_append (n ending : String) : Text.atMost n (n ++ ending) = true := by
  rw [Text.atMost, Bool.not_eq_true', decide_eq_false_iff_not, String.lt_iff, String.toList_append]
  exact List.not_lt.2 List.le_append_left

/-- A folder comes before the file that names the same package. -/
theorem first_folder {es inner : List (String × Entry)} {n : String}
    (h : (n, folder inner) ∈ es) : First n es (n, folder inner) where
  mem := h
  names := .folder inner
  least y _ hy := by
    cases hy with
    | folder _ => simpa using Text.isOrdering.total n n
    | file _ => exact atMost_append n ".toml"

theorem First.unique {es : List (String × Entry)} {n : String} {x y : String × Entry}
    (htidy : Tidy (folder es)) (hx : First n es x) (hy : First n es y) : x = y :=
  List.inj_on_of_nodup_map (tidy_folder_iff.1 htidy).1 hx.mem hy.mem
    (Text.isOrdering.antisymm _ _ (hx.least y hy.mem hy.names) (hy.least x hx.mem hx.names))

theorem exists_first {es : List (String × Entry)} {n : String}
    (h : ∃ x ∈ es, Names n x) : ∃ x, First n es x := by
  by_cases hfolder : ∃ inner, (n, folder inner) ∈ es
  · obtain ⟨inner, hinner⟩ := hfolder
    exact ⟨_, first_folder hinner⟩
  · -- without a folder only the file has the name
    obtain ⟨x, hx, hnames⟩ := h
    refine ⟨x, hx, hnames, fun y hy hy' => ?_⟩
    cases hy' with
    | folder inner => exact absurd ⟨inner, hy⟩ hfolder
    | file _ =>
      cases hnames with
      | folder inner => exact absurd ⟨inner, hx⟩ hfolder
      | file _ => simpa using Text.isOrdering.total (n ++ ".toml") (n ++ ".toml")

theorem find?_of_mem {data : List (String × Entry)} (htidy : Tidy (folder data))
    {x : String × Entry} (hx : x ∈ data) : data.find? (·.1 = x.1) = some x := by
  cases hfind : data.find? (·.1 = x.1) with
  | none => exact absurd (List.find?_eq_none.1 hfind x hx) (by simp)
  | some y =>
    have hname : y.1 = x.1 := by simpa using List.find?_some hfind
    rw [List.inj_on_of_nodup_map (tidy_folder_iff.1 htidy).1 (List.mem_of_find?_eq_some hfind) hx
      hname]

theorem packages?_congr {data data' : List (String × Entry)} (htidy : Tidy (folder data))
    (h : Alike parse (folder data) (folder data')) :
    packages? data' parse = packages? data parse := by
  have hsame := h.sameDigests htidy
  unfold packages?
  cases hfind : data.find? (·.1 = "packages") with
  | none =>
    have hnone : data'.find? (·.1 = "packages") = none := by
      rw [List.find?_eq_none] at hfind ⊢
      intro x hx hname
      obtain ⟨y, hy, hxy⟩ := List.mem_map.1 ((names_perm hsame.perm).mem_iff.2
        (List.mem_map_of_mem hx))
      exact hfind y hy (hxy ▸ hname)
    rw [hnone]
  | some x =>
    obtain ⟨name, e⟩ := x
    obtain rfl : name = "packages" := by simpa using List.find?_some hfind
    obtain ⟨e', hmem, halike⟩ := h.exists_inside _ (List.mem_of_find?_eq_some hfind)
    rw [find?_of_mem hsame.tidy hmem]
    have hsub : Tidy e := (tidy_folder_iff.1 htidy).2 _ (List.mem_of_find?_eq_some hfind)
    have hkind := congrArg Digest.isFolder ((halike.sameDigests hsub).digest_eq "packages")
    cases e with
    | file _ =>
      cases e' with
      | file _ => rfl
      | folder _ => cases hkind
    | folder _ =>
      cases e' with
      | file _ => cases hkind
      | folder _ => exact congrArg some (sources_congr halike hsub).symm

/-- Whatever parses the files, the packages that are read from a data folder depend on its files and
folders, and not on the order in which folders list them.  A package is there under every name that
is not empty, has no dot and names an entry of the package folder; the first entry that it names is
taken, a folder rather than a file, and the package has of everything that is declared there what
the last file says that declares it and can be read. -/
theorem loaded_by_files (parse : String → Option Json) {data : List (String × Entry)}
    (htidy : Tidy (folder data)) :
    (∀ data', Alike parse (folder data) (folder data') →
      packages? data' parse = packages? data parse) ∧
    ∀ es, ("packages", folder es) ∈ data → ∃ s, packages? data parse = some s ∧ ∀ n,
      (isPackageName n = false → s.packages.find? n = none) ∧
      (isPackageName n = true →
        ((∀ x ∈ es, ¬ Names n x) → s.packages.find? n = none) ∧
        ((∃ x ∈ es, Names n x) → ∃! x, First n es x) ∧
        (∀ inner, (n, folder inner) ∈ es → First n es (n, folder inner)) ∧
        ∀ x, First n es x → ∃ p, s.packages.find? n = some p ∧ Gathers parse x p) := by
  refine ⟨fun data' => packages?_congr htidy, fun es hes => ?_⟩
  have hsub : Tidy (folder es) := (tidy_folder_iff.1 htidy).2 _ hes
  have hread : packages? data parse = some (sources parse es) := by
    rw [packages?, find?_of_mem htidy hes]
  refine ⟨sources parse es, hread, fun n => ⟨fun hn => ?_, fun hn => ⟨fun h => ?_, ?_, ?_, ?_⟩⟩⟩
  · exact find?_sources_eq_none fun hn' => absurd (hn.symm.trans hn') Bool.false_ne_true
  · exact find?_sources_eq_none fun _ => h
  · intro h
    obtain ⟨x, hx⟩ := exists_first h
    exact ⟨x, hx, fun y hy => hy.unique hsub hx⟩
  · exact fun inner => first_folder
  · intro x hx
    refine ⟨(digest parse x).gathered, hx.find?_sources hsub hn, ?_⟩
    exact gathers_digest ((tidy_folder_iff.1 hsub).2 x hx.mem)

/-! ### A town in a folder and in a file -/

/-- A file with one event. -/
def bell (line : String) : Entry := file ("[events]\nbell = \"" ++ line ++ "\"\n").toUTF8

/-- Two files that declare the same, and one that cannot be parsed. -/
def town : List (String × Entry) :=
  [("b.toml", bell "notify b"), ("c.toml", file "[events\n".toUTF8), ("a.toml", bell "notify a")]

/-- The folder of the town behind a file of its name. -/
def shelf : List (String × Entry) :=
  [("packages", folder [("town.toml", bell "notify c"), ("town", folder town)])]

/-- The same with everything listed the other way round. -/
def reshelved : List (String × Entry) :=
  [("packages", folder [("town", folder town.reverse), ("town.toml", bell "notify c")])]

theorem tidy_shelf : Tidy (folder shelf) := by
  have htown : Tidy (folder town) :=
    .cons (by decide) (.file _) (.cons (by decide) (.file _) (.cons (by decide) (.file _) .nil))
  exact .cons (by decide) (.cons (by decide) (.file _) (.cons (by decide) htown .nil)) .nil

theorem alike_reshelved : Alike Toml.read? (folder shelf) (folder reshelved) := by
  have htown : Alike Toml.read? (folder town) (folder town.reverse) :=
    .of_perm (List.reverse_perm town).symm
  refine .cons "packages" ?_ .nil
  exact .trans (.swap _ _ _) (.cons "town" htown (.refl _))

theorem decides_bell : ∃ path src, Decides Toml.read? ("town", folder town) .event "bell" path src ∧
    (src.lines .event).find? "bell" = some "notify b" := by
  have hread : ((source? Toml.read? (bell "notify b")).bind fun src => src.events.find? "bell") =
      some "notify b" := by decide +kernel
  have hspoilt : (source? Toml.read? (file "[events\n".toUTF8)).isSome = false := by decide +kernel
  obtain ⟨src, hsource, hline⟩ := Option.bind_eq_some_iff.1 hread
  refine ⟨["town", "b.toml"], src, ⟨?_, ?_, ?_⟩, hline⟩
  · exact offers_folder_iff.2 ⟨_, List.mem_cons_self, _, rfl,
      offers_file_iff.2 ⟨rfl, by decide, hsource⟩⟩
  · show (src.events.find? "bell").isSome = true
    rw [hline]
    rfl
  · intro path' src' hoffers _
    obtain ⟨x, hx, rest, rfl, hbelow⟩ := offers_folder_iff.1 hoffers
    obtain rfl | rfl | rfl : x = ("b.toml", bell "notify b") ∨
        x = ("c.toml", file "[events\n".toUTF8) ∨ x = ("a.toml", bell "notify a") := by
      simpa [town] using hx
    · obtain ⟨rfl, -, -⟩ := offers_file_iff.1 hbelow
      exact .inl rfl
    · obtain ⟨-, -, hsource'⟩ := offers_file_iff.1 hbelow
      rw [hsource'] at hspoilt
      cases hspoilt
    · obtain ⟨rfl, -, -⟩ := offers_file_iff.1 hbelow
      exact .inr (.cons (.rel (by decide)))

/-- The town is that of the folder, and of its two files the later one has the bell. -/
theorem loaded_by_files_of_shelf : Tidy (folder shelf) ∧ packages? reshelved = packages? shelf ∧
    ∃ s p, packages? shelf = some s ∧ s.packages.find? "town" = some p ∧
      p.events.find? "bell" = some "notify b" := by
  obtain ⟨hsame, hloaded⟩ := loaded_by_files Toml.read? tidy_shelf
  obtain ⟨s, hs, htown⟩ := hloaded _ List.mem_cons_self
  obtain ⟨-, -, hfolder, htaken⟩ := (htown "town").2 (by decide)
  obtain ⟨p, hp, hgathers⟩ := htaken _ (hfolder town (by simp))
  exact ⟨tidy_shelf, hsame _ alike_reshelved, s, p, hs, hp,
    (hgathers.line .event "bell" "notify b").2 decides_bell⟩

end Entry

end Questbook
