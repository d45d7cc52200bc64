/-
Questbook/Proofs/Engine/Provenance.lean

What storage is told of can be read back.

Progress is of objectives that packages in force have defined at some time: it is started or read
back only where there is a definition, and all else goes on with what is active.  So what is queued
for the archive is of definitions that have been built.  The packages of these have the names that
folders and files can give them, without a dot, and a definition of such a package is told from its
text.

One thing stands in the way.  Names of packages are looked at when they are read, names of
definitions are not, and a definition can have the empty name.  It is found wherever its text is
written, so that it can be started; but the text is no name written out in full, and the record is
passed over when it is read back.

Main result: `read_back_unless_nameless`.
-/
import Mathlib
import Questbook.Proofs.Engine.Authored
import Questbook.Proofs.Engine.Storage
import Questbook.Proofs.Package.Compile
import Questbook.Proofs.Package.Evaluate
import Questbook.Proofs.Progress.Agreement

namespace Questbook

/-! ### The names of packages -/

/-- Every package has a name that can be that of a package. -/
def Sources.Admissible (sources : Sources) : Prop :=
  ∀ name ∈ sources.packages.keys, Entry.isPackageName name = true

theorem Sources.Admissible.insert {sources : Sources} {name : String} (h : sources.Admissible)
    (hname : Entry.isPackageName name = true) (p : PackageSource) :
    (sources.insert name p).2.Admissible := by
  have hput : ∀ p' : PackageSource,
      Sources.Admissible ⟨sources.packages.insert name p'⟩ := by
    intro p' name' hmem
    rcases Table.mem_keys_put.1 hmem with rfl | hmem
    · exact hname
    · exact h name' hmem
  unfold Sources.insert
  split <;> exact hput _

/-- Whatever a package folder has in it, the packages in it have names without a dot. -/
theorem Entry.admissible_sources (parse : String → Option Json)
    (entries : List (String × Entry)) : (Entry.sources parse entries).Admissible := by
  unfold Entry.sources
  generalize Entry.ascending entries = l
  have hempty : Sources.empty.Admissible := nofun
  generalize Sources.empty = s at hempty
  induction l generalizing s with
  | nil => exact hempty
  | cons e rest ih =>
    rw [List.foldl_cons]
    refine ih _ ?_
    split
    · exact hempty
    · split
      · exact hempty
      · next hname =>
        rw [Bool.or_eq_true, not_or, Bool.not_eq_true', Bool.not_eq_false] at hname
        exact hempty.insert hname.1 _

variable {registry : Registry} {sources : Sources} {k : Kind} {id : ObjectId}

theorem Packages.mem_ids_iff {s : Packages} : id ∈ s.ids k ↔ ∃ d, s.built.find? k id = some d := by
  unfold Packages.ids Catalogue.ids ObjectId.sorted Catalogue.find?
  rw [List.mem_mergeSort, ← Table.contains_iff_mem_keys, Table.contains, Option.isSome_iff_exists]

/-- What has been built is of a package that has been written. -/
theorem isPackageName_of_mem_ids (h : sources.Admissible)
    (hid : id ∈ (Packages.compile registry sources).ids k) :
    Entry.isPackageName id.package = true := by
  obtain ⟨d, hd⟩ := Packages.mem_ids_iff.1 hid
  obtain ⟨p, hp, -⟩ := Sources.mem_declared_iff.1 (mem_declared_of_grounded (compile_find?.1 hd))
  exact h id.package (Table.mem_keys_of_find? hp)

namespace Engine

variable {P : ObjectId → Prop} {e e' e₀ : Engine} {mode : Mode} {p : PlayerId} {o : ObjectId}

/-! ### What a step does to the names -/

/-- `P` holds of the objectives that packages in force define, that are active, and that the archive
is told of. -/
structure NamedBy (P : ObjectId → Prop) (e : Engine) : Prop where
  defined : ∀ o (definition : Objective), e.packages.get .objective o = .ok definition → P o
  active : ∀ p o a, e.progress.find? p o = some a → P o
  queued : ∀ op ∈ e.queued, P op.key.2

theorem NamedBy.of_find? (h : e.NamedBy P) (hpackages : e'.packages = e.packages)
    (hprogress : ∀ p o a, e'.progress.find? p o = some a → P o) (houtbox : e'.outbox = e.outbox) :
    e'.NamedBy P where
  defined o definition := hpackages ▸ h.defined o definition
  active := hprogress
  queued := by
    simp only [Engine.queued, drainOutbox, houtbox]
    exact h.queued

/-- A change of one objective that the archive is told of. -/
theorem NamedBy.of_sets {now : Option Active} (h : e.NamedBy P) (hset : Sets e e' p o now)
    (hpackages : e'.packages = e.packages) (ho : P o) : e'.NamedBy P where
  defined o definition := hpackages ▸ h.defined o definition
  active q x a ha := by
    rw [hset.progress] at ha
    split at ha
    · next hkey => exact hkey.2 ▸ ho
    · exact h.active q x a ha
  queued op hop := by
    have hqueued := h.queued
    simp only [Engine.queued, drainOutbox, hset.outbox] at hop hqueued
    cases houtbox : e.outbox with
    | none => simp [houtbox] at hop
    | some ops =>
      simp only [houtbox, Option.map_some, Option.getD_some, List.reverse_cons,
        List.mem_append, List.mem_singleton] at hop hqueued
      rcases hop with hop | rfl
      · exact hqueued op hop
      · rwa [RecordChange.key_telling]

/-- A step goes on with what is active, or begins what is defined. -/
theorem Step.namedBy (h : Step mode e e') (hnamed : e.NamedBy P) : e'.NamedBy P := by
  have hheld : ∀ {p held id active}, e.progress.findIn? p held id = some active → P id :=
    fun hactive => hnamed.active _ _ _ (e.progress.find?_of_findIn? _ _ _ hactive)
  cases h with
  | aside hprogress houtbox _ hpackages =>
    exact hnamed.of_find? hpackages (by rw [hprogress]; exact hnamed.active) houtbox
  | prune p held =>
    refine hnamed.of_find? rfl (fun q x a ha => ?_) rfl
    rw [e.find?_pruned] at ha
    exact hnamed.active q x a ha
  | start hdefined =>
    exact hnamed.of_sets (begun_sets e _ _ _) (packages_begun ..) (hnamed.defined _ _ hdefined)
  | store hactive data => exact hnamed.of_sets (stored_sets _ data hactive) rfl (hheld hactive)
  | cancel hactive => exact hnamed.of_sets (removed_sets _ hactive) rfl (hheld hactive)
  | complete hactive => exact hnamed.of_sets (completed_sets hactive) rfl (hheld hactive)
  | renew hactive => exact hnamed.of_sets (renewed_sets _ hactive) rfl (hheld hactive)
  | @drop _ p held id active err hactive =>
    refine hnamed.of_find? rfl (fun q x a ha => ?_) rfl
    rw [e.find?_ended p q held id x .dropped hactive] at ha
    split at ha
    · cases ha
    · exact hnamed.active q x a ha
  | @restore _ p id definition data hdefined _ startedAt =>
    refine hnamed.of_find? (packages_enter ..) (fun q x a ha => ?_) (outbox_enter ..)
    rw [e.find?_enter p q id x data startedAt] at ha
    split at ha
    · next hkey => exact hkey.2 ▸ hnamed.defined id definition hdefined
    · exact hnamed.active q x a ha

theorem Steps.namedBy (h : Steps mode e e') (hnamed : e.NamedBy P) : e'.NamedBy P := by
  induction h with
  | refl => exact hnamed
  | tail _ hstep ih => exact hstep.namedBy ih

/-! ### Runs -/

variable {levels : Nat} {cs : List Command}

/-- If all that packages in force ever define is named by `P`, so is all progress. -/
theorem namedBy_of_performAll (hdefined : ∀ packages, .replacePackages packages ∈ cs →
      ∀ o (definition : Objective), packages.get .objective o = .ok definition → P o)
    (hrun : performAll levels cs e₀ = .ok e) (h : e₀.NamedBy P) : e.NamedBy P := by
  induction cs using List.reverseRecOn generalizing e with
  | nil =>
    cases hrun
    exact h
  | append_singleton cs c ih =>
    obtain ⟨e₁, answer, hbefore, hlast⟩ := performAll_concat hrun
    have h₁ := ih (fun packages hmem => hdefined packages (List.mem_append_left _ hmem)) hbefore
    refine Steps.namedBy (perform_steps hlast) ?_
    rcases c.mode_cases with ⟨records, rfl⟩ | ⟨packages, rfl⟩ | ⟨-, hsetting⟩
    · exact h₁
    · exact ⟨hdefined packages (List.mem_append_right _ List.mem_cons_self), h₁.active, h₁.queued⟩
    · rwa [hsetting]

/-- What is active, and what the archive is told of, has been defined by packages in force. -/
theorem namedBy_ids {registry : Registry} {integrations : Integrations} {world : World}
    {archived : Bool} {screen : String} {clock : Calendar.Timestamp} {dice : Dice}
    (hrun : performAll levels cs (fresh registry integrations world archived screen clock dice) =
      .ok e) :
    e.NamedBy fun o =>
      ∃ packages, .replacePackages packages ∈ cs ∧ o ∈ packages.ids .objective := by
  refine namedBy_of_performAll (fun packages hmem o definition hdefined => ?_) hrun ?_
  · exact ⟨packages, hmem, Packages.mem_ids_iff.2 ⟨definition, Packages.find?_of_get hdefined⟩⟩
  · refine ⟨fun o definition hdefined => ?_, fun p o a ha => ?_, fun op hop => ?_⟩
    · cases hdefined
    · cases ha
    · cases archived <;> cases hop

/-- **What is stored is read back, unless it has no name.**  Of packages that a package folder can
have, whatever has been built is meant by its text in every package, and is read from its text if
and only if it does not have the empty name.  After every run over such packages each record that
the archive is told of is of an objective that packages in force have defined.  Rows to which it is
written give back what an archive in memory does, as far as data and times are read back from their
texts, but for the objectives with the empty name. -/
theorem read_back_unless_nameless {registry : Registry} {integrations : Integrations}
    {world : World} {screen : String} {clock : Calendar.Timestamp} {dice : Dice}
    (hcompiled : ∀ packages, .replacePackages packages ∈ cs → ∃ registry sources,
      Sources.Admissible sources ∧ packages = Packages.compile registry sources)
    (hrun : performAll levels cs (fresh registry integrations world true screen clock dice) =
      .ok e) :
    (∀ (registry : Registry) (sources : Sources), sources.Admissible →
      ∀ (k : Kind) (id : ObjectId), id ∈ (Packages.compile registry sources).ids k →
        (∀ current, ObjectId.qualify id.text current = id) ∧
        ObjectId.parse? id.text = if id.name = "" then none else some id) ∧
    (∀ r, .upsert r ∈ e.queued →
      (∃ packages, .replacePackages packages ∈ cs ∧ r.objective ∈ packages.ids .objective) ∧
      ObjectId.ofJson? (.text r.objective.text) =
        if r.objective.name = "" then none else some r.objective) ∧
    ((∀ r, .upsert r ∈ e.queued → r.ReadsBack) →
      ∀ r, r ∈ Archive.load (Archive.apply e.queued RowArchive.empty) ↔
        r ∈ Archive.load e.replayed ∧ r.objective.name ≠ "") := by
  have hnamed := namedBy_ids hrun
  have hpackage : ∀ o : ObjectId,
      (∃ packages, .replacePackages packages ∈ cs ∧ o ∈ packages.ids .objective) →
      Entry.isPackageName o.package = true := by
    rintro o ⟨packages, hmem, ho⟩
    obtain ⟨registry', sources, hsources, rfl⟩ := hcompiled packages hmem
    exact isPackageName_of_mem_ids hsources ho
  refine ⟨fun registry sources hsources k id hid => ?_, fun r hr => ?_, fun hreads r => ?_⟩
  · have hname := isPackageName_of_mem_ids hsources hid
    exact ⟨ObjectId.qualify_text hname, ObjectId.parse?_text hname⟩
  · have hobjective := hnamed.queued _ hr
    exact ⟨hobjective, ObjectId.parse?_text (hpackage r.objective hobjective)⟩
  · refine (Agree.empty.apply hpackage fun op hop => ?_).mem_load_iff hpackage
    refine ⟨hnamed.queued op hop, fun r hr => hreads r ?_⟩
    cases op with
    | upsert r' =>
      cases hr
      exact hop
    | delete p o => cases hr

/-! ### A town -/

/-- Wolves to kill under a name and without one, and the events that begin it. -/
def town : Sources where
  packages := (∅ : Table String PackageSource).insert "town" { PackageSource.empty with
    events := .ofList [("go", "objective start town."), ("hunt", "objective start wolves")]
    objectives := .ofList [("", "mobkill wolf 1"), ("wolves", "mobkill wolf 1")] }

/-- The town is put in force, and events are fired. -/
def townRun (events : List String) : List Command :=
  .replacePackages (Packages.compile (Vocabulary.registry ⟨true, true⟩) town) ::
    events.map fun event => .fire ⟨"ann"⟩ event "town"

theorem admissible_town : town.Admissible := by
  unfold Sources.Admissible
  decide

theorem compile_town : Packages.compile (Vocabulary.registry ⟨true, true⟩) town =
    compileWithin (Vocabulary.registry ⟨true, true⟩) town 5 :=
  (compileWithin_eq (show 4 < 5 by decide) (by decide)).symm

/-- A wolf to kill under a name. -/
def townWolf (name : String) : ProgressRecord :=
  ⟨⟨"ann"⟩, ⟨"town", name⟩, .record [("left", .whole 1)], ⟨0, 0⟩⟩

theorem readsBack_townWolf (name : String) : (townWolf name).ReadsBack where
  data := show Json.read? (Json.print (.record [("left", .whole 1)])) = some _ by cbv
  startedAt := show Calendar.Timestamp.ofStrict? (Calendar.Timestamp.offsetText ⟨0, 0⟩) =
    some ⟨0, 0⟩ by decide

/-- Whether changes tell of wolves to kill under given names. -/
def tellsOfWolves : List String → List RecordChange → Bool
  | [], [] => true
  | name :: names, .upsert ⟨p, o, .record [("left", .whole 1)], t⟩ :: ops =>
    p == ⟨"ann"⟩ && o == ⟨"town", name⟩ && t == ⟨0, 0⟩ && tellsOfWolves names ops
  | _, _ => false

theorem eq_of_tellsOfWolves {names : List String} {ops : List RecordChange}
    (h : tellsOfWolves names ops = true) : ops = names.map fun name => .upsert (townWolf name) := by
  fun_induction tellsOfWolves names ops with
  | case1 => rfl
  | case2 name names p o t ops ih =>
    simp only [Bool.and_eq_true, beq_iff_eq] at h
    obtain ⟨⟨⟨rfl, rfl⟩, rfl⟩, hrest⟩ := h
    rw [ih hrest]
    rfl
  | case3 => cases h

/-- What the archive is told of in the town. -/
theorem exists_townRun {events names : List String}
    (h : passes (performAll 1 (.replacePackages (compileWithin (Vocabulary.registry ⟨true, true⟩)
      town 5) :: events.map fun event => .fire ⟨"ann"⟩ event "town") idle) (fun e =>
        tellsOfWolves names e.queued) = true) :
    ∃ e, performAll 1 (townRun events) idle = .ok e ∧
      e.queued = names.map fun name => .upsert (townWolf name) := by
  obtain ⟨e, hrun, h⟩ := exists_of_passes h
  exact ⟨e, by rw [townRun, compile_town]; exact hrun, eq_of_tellsOfWolves h⟩

/-- Of two records that are stored one is read back. -/
theorem read_back_unless_nameless_of_town :
    ∃ e, performAll 1 (townRun ["go", "hunt"]) idle = .ok e ∧
      e.queued = [.upsert (townWolf ""), .upsert (townWolf "wolves")] ∧
      townWolf "" ∈ Archive.load e.replayed ∧ townWolf "wolves" ∈ Archive.load e.replayed ∧
      townWolf "" ∉ Archive.load (Archive.apply e.queued RowArchive.empty) ∧
      townWolf "wolves" ∈ Archive.load (Archive.apply e.queued RowArchive.empty) := by
  obtain ⟨e, hrun, hqueued⟩ : ∃ e, performAll 1 (townRun ["go", "hunt"]) idle = .ok e ∧
      e.queued = ["", "wolves"].map fun name => .upsert (townWolf name) :=
    exists_townRun (by decide +kernel)
  have hcompiled : ∀ packages, .replacePackages packages ∈ townRun ["go", "hunt"] →
      ∃ registry sources, Sources.Admissible sources ∧
        packages = Packages.compile registry sources := by
    intro packages hmem
    obtain rfl : packages = _ := by simpa [townRun] using hmem
    exact ⟨_, town, admissible_town, rfl⟩
  have hreads : ∀ r, .upsert r ∈ e.queued → r.ReadsBack := by
    intro r hr
    rw [hqueued] at hr
    obtain ⟨name, -, heq⟩ := List.mem_map.1 hr
    cases heq
    exact readsBack_townWolf name
  obtain ⟨-, -, hrows⟩ := read_back_unless_nameless hcompiled hrun
  have hload := hrows hreads
  have hmemory : ∀ name ∈ ["", "wolves"], townWolf name ∈ Archive.load e.replayed := by
    intro name hname
    refine (List.mergeSort_perm _ _).mem_iff.2 ?_
    rw [replayed, hqueued]
    exact List.mem_map_of_mem (f := townWolf) hname
  exact ⟨e, hrun, hqueued, hmemory _ (by simp), hmemory _ (by simp),
    fun h => ((hload _).1 h).2 rfl, (hload _).2 ⟨hmemory _ (by simp), by decide⟩⟩

/-- **A name that is lost.**  An objective with the empty name is built without a complaint, and an
event begins it.  The archive is told of it, and in memory it has the record; the row it has for the
record cannot be read back. -/
theorem nameless_lost : town.Admissible ∧
    (Packages.compile (Vocabulary.registry ⟨true, true⟩) town).diagnostics = [] ∧
    ⟨"town", ""⟩ ∈ (Packages.compile (Vocabulary.registry ⟨true, true⟩) town).ids .objective ∧
    ObjectId.parse? (ObjectId.text ⟨"town", ""⟩) = none ∧
    ∃ e, performAll 1 (townRun ["go"]) idle = .ok e ∧
      Archive.load e.replayed = [townWolf ""] ∧
      Archive.load (Archive.apply e.queued RowArchive.empty) = [] := by
  obtain ⟨e, hrun, hqueued⟩ : ∃ e, performAll 1 (townRun ["go"]) idle = .ok e ∧
      e.queued = [""].map fun name => .upsert (townWolf name) :=
    exists_townRun (by decide +kernel)
  refine ⟨admissible_town, ?_, ?_, by decide, e, hrun, ?_, ?_⟩
  · rw [compile_town]
    decide +kernel
  · rw [compile_town, Packages.mem_ids_iff, ← Option.isSome_iff_exists]
    decide +kernel
  · rw [replayed, hqueued]
    exact List.mergeSort_singleton _
  · rw [hqueued]
    show ([_].mergeSort _).filterMap _ = []
    rw [List.mergeSort_singleton]
    rfl

end Engine

end Questbook
