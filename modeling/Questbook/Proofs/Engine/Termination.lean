/-
Questbook/Proofs/Engine/Termination.lean

When content comes to an end.

What is built of conditions, events and variables is a finite tree.  Objectives are only named in
it, and it is by their names that completion events may lead back to where they began.  To complete
an objective ends it, so that a completion within its own events finds nothing to complete, unless
the events have started it again first.  Packages are settled if no completion may set off both:
then along every chain of completions ever fewer objectives are left that the chain may get to.

Main results: `terminates`, for settled packages of built-in keywords, and `never_returns`, for
packages that are not settled and are compiled without a complaint all the same.
-/
import Mathlib.Data.Finset.Card
import Questbook.Proofs.Engine.Authored
import Questbook.Proofs.Package.Evaluate

namespace Questbook

/-! ### What a completion sets off -/

namespace Packages

variable {K : Packages} {A : Set Demand} {o x : ObjectId}

/-- The events of one objective may complete another one on the spot. -/
def Completes (K : Packages) (o x : ObjectId) : Prop :=
  ∃ definition : Objective, K.get .objective o = .ok definition ∧
    .request (.completeObjective x) ∈ Action.demandsOf false definition.events

/-- What the completion of an objective may ask for on the spot, be it through completions of
others. -/
def setsOff (K : Packages) (o : ObjectId) : Set Demand :=
  { d | ∃ (x : ObjectId) (definition : Objective), Relation.ReflTransGen K.Completes o x ∧
    K.get .objective x = .ok definition ∧ d ∈ Action.demandsOf false definition.events }

/-- No completion may set off both another start and another completion of its objective. -/
def Settled (K : Packages) : Prop :=
  ∀ o, .request (.startObjective o) ∈ K.setsOff o → .request (.completeObjective o) ∉ K.setsOff o

/-- Where completion events complete nothing on the spot, packages are settled. -/
theorem settled_of_not_completes (h : ∀ o x, ¬ K.Completes o x) : K.Settled := by
  rintro o - ⟨x, definition, -, hdefined, hcompletes⟩
  exact h x o ⟨definition, hdefined, hcompletes⟩

theorem demandsOf_subset_setsOff {definition : Objective}
    (h : K.get .objective o = .ok definition) :
    Action.demandsOf false definition.events ⊆ K.setsOff o :=
  fun _ hd => ⟨o, definition, .refl, h, hd⟩

theorem setsOff_subset (h : .request (.completeObjective x) ∈ K.setsOff o) :
    K.setsOff x ⊆ K.setsOff o := by
  obtain ⟨y, definition, hreach, hdefined, hcompletes⟩ := h
  rintro d ⟨z, last, hreach', hlast⟩
  exact ⟨z, last, (hreach.tail ⟨definition, hdefined, hcompletes⟩).trans hreach', hlast⟩

theorem Within.setsOff_subset (h : K.Within A true) (o : ObjectId) : K.setsOff o ⊆ A := by
  rintro d ⟨x, definition, -, hdefined, hd⟩
  have hA := h .objective x definition hdefined
  simp only [Kind.demands, Objective.demands, Set.union_subset_iff] at hA
  exact hA.2 (Action.demandsOf_mono _ hd)

/-- The objectives of packages. -/
def objectives (K : Packages) : Finset ObjectId := K.built.objectives.keys.toFinset

theorem mem_objectives {definition : Objective} (h : K.get .objective o = .ok definition) :
    o ∈ K.objectives :=
  List.mem_toFinset.2 (Table.mem_keys_of_find? (Packages.find?_of_get h))

end Packages

/-! ### Completion events -/

theorem Engine.find?_begun (e : Engine) (p q : PlayerId) (id o : ObjectId) (data : Json) :
    (e.begun p id data).progress.find? q o =
      if p = q ∧ id = o then some ⟨data, e.progress.nextEpoch, e.clock⟩
      else e.progress.find? q o :=
  e.find?_enter p q id o data e.clock

variable {K : Packages} {A : Set Demand} {T : Set ObjectId} {p : PlayerId} {levels : Nat}

/-- Nothing is active of a player but objectives of `T`. -/
structure Engine.ActiveIn (K : Packages) (p : PlayerId) (T : Set ObjectId) (e : Engine) : Prop where
  packages : e.packages = K
  active : ∀ o a, e.progress.find? p o = some a → o ∈ T

namespace Engine.ActiveIn

variable {e e' : Engine} {id : ObjectId} {held : Nat} {active : Active}

theorem congr (h : e.ActiveIn K p T) (hpackages : e'.packages = e.packages)
    (hprogress : e'.progress = e.progress) : e'.ActiveIn K p T :=
  ⟨hpackages.trans h.packages, fun o a ha => h.active o a (hprogress ▸ ha)⟩

theorem mono {T' : Set ObjectId} (h : e.ActiveIn K p T) (hT : T ⊆ T') : e.ActiveIn K p T' :=
  ⟨h.packages, fun o a ha => hT (h.active o a ha)⟩

theorem begun (h : e.ActiveIn K p T) (hid : id ∈ T) (data : Json) :
    (e.begun p id data).ActiveIn K p T := by
  refine ⟨(e.packages_begun p id data).trans h.packages, fun o a ha => ?_⟩
  rw [find?_begun] at ha
  split at ha
  · rename_i ho
    exact ho.2 ▸ hid
  · exact h.active o a ha

theorem pruned (h : e.ActiveIn K p T) (held : Nat) : (e.pruned p held).ActiveIn K p T :=
  ⟨h.packages, fun o a ha => h.active o a (e.find?_pruned p p held o ▸ ha)⟩

/-- What is removed is not active any more. -/
theorem removed (h : e.ActiveIn K p T) (how : Ending)
    (hactive : e.progress.findIn? p held id = some active) :
    (e.removed p held id active how).ActiveIn K p { o ∈ T | o ≠ id } := by
  refine ⟨h.packages, fun o a ha => ?_⟩
  have hfind : (e.removed p held id active how).progress.find? p o = _ :=
    e.find?_ended p p held id o how hactive
  rw [hfind] at ha
  split at ha
  · cases ha
  · rename_i hne
    exact ⟨h.active o a ha, fun ho => hne ⟨rfl, ho.symm⟩⟩

end Engine.ActiveIn

open Engine

/-- Where packages are settled, completion events come to an end: along a chain of completions the
set `F` of the objectives that may still be completed loses one of them each time, be it that the
rest of the chain does not complete it any more or that it does not start it again. -/
theorem keptByContent_of_settled (hK : K.Settled) {F : Finset ObjectId}
    (hlevels : 2 * F.card < levels)
    (htalk : ∀ r, .request r ∈ A → r.ofTalk = false)
    (hclosed : ∀ o, .request (.completeObjective o) ∈ A → K.setsOff o ⊆ A)
    (hstart : ∀ o, .request (.startObjective o) ∈ A → o ∈ T)
    (hF : ∀ o definition, .request (.completeObjective o) ∈ A → o ∈ T →
      K.get .objective o = .ok definition → o ∈ F) :
    KeptByContent (nested levels) p A false (ActiveIn K p T) (· ≠ .tooDeep) := by
  induction levels using Nat.strong_induction_on generalizing A T F with
  | _ levels ih =>
  have hcomplete : ∀ m ≤ levels, 2 * F.card ≤ m → ∀ id, .request (.completeObjective id) ∈ A →
      (Objectives.complete (nested m) p id).Keeps (ActiveIn K p T) (· ≠ .tooDeep) := by
    intro m hm hcard id hid
    refine Objectives.complete_keeps (fun _ he => he.packages) fun {e held active definition} he
      hdefined hactive => ?_
    have hT : id ∈ T := he.active id active (e.progress.find?_of_findIn? p held id hactive)
    have hidF : id ∈ F := hF id definition hid hT hdefined
    have hpos : 0 < F.card := Finset.card_pos.2 ⟨id, hidF⟩
    obtain ⟨m, rfl⟩ : ∃ k, m = k + 1 := ⟨m - 1, by omega⟩
    have hA := hclosed id hid
    -- Either the objective is not started again, or it is not completed again.
    let T' : Set ObjectId := { o ∈ T | .request (.startObjective id) ∈ K.setsOff id ∨ o ≠ id }
    have hstart' : ∀ o, .request (.startObjective o) ∈ K.setsOff id → o ∈ T' := fun o ho => by
      refine ⟨hstart o (hA ho), ?_⟩
      by_cases hid : o = id
      · exact .inl (hid ▸ ho)
      · exact .inr hid
    have hF' : ∀ o definition, .request (.completeObjective o) ∈ K.setsOff id → o ∈ T' →
        K.get .objective o = .ok definition → o ∈ F.erase id := by
      intro o definition ho hT' hdefined
      refine Finset.mem_erase.2 ⟨?_, hF o definition (hA ho) hT'.1 hdefined⟩
      rintro rfl
      rcases hT'.2 with hagain | hne
      · exact hK o hagain ho
      · exact hne rfl
    have hcard' : 2 * (F.erase id).card < m := by
      rw [Finset.card_erase_of_mem hidF]
      omega
    have hevents : KeptByContent (nested m) p (K.setsOff id) false (ActiveIn K p T')
        (· ≠ .tooDeep) :=
      ih m hm hcard' (fun r hr => htalk r (hA hr)) (fun o ho => Packages.setsOff_subset ho) hstart'
        hF'
    have hT' : { o ∈ T | o ≠ id } ⊆ T' := fun o ho => ⟨ho.1, .inr ho.2⟩
    have hremoved : (e.completed p held id active).ActiveIn K p T' :=
      ((he.removed .completed hactive).mono hT').congr rfl rfl
    refine (Action.fireEach_keeps hevents (Packages.demandsOf_subset_setsOff hdefined) _
      hremoved).mono fun _ e' _ he' => ?_
    exact (he'.mono fun o ho => ho.1).pruned held
  have hstarts : ∀ id, .request (.startObjective id) ∈ A →
      (Objectives.start p id).Keeps (ActiveIn K p T) (· ≠ .tooDeep) := fun id hid =>
    Objectives.start_keeps (fun _ he => he.packages) fun he _ _ => he.begun (hstart id hid) _
  have hcancels : ∀ id, (Objectives.cancel p id).Keeps (ActiveIn K p T) (· ≠ .tooDeep) := fun id =>
    Objectives.cancel_keeps (fun held he => he.pruned held) fun he hactive =>
      ((he.removed .cancelled hactive).mono fun o ho => ho.1).pruned _
  exact
    { dice := fun he => he.congr rfl rfl
      place := fun _ _ he => he.congr rfl rfl
      join := fun _ he => he.congr rfl rfl
      render := fun _ he => he.congr rfl rfl
      note := fun _ he => he.congr rfl rfl
      later := fun he _ _ => he.congr rfl rfl
      ask := fun r hr => by
        obtain ⟨m, rfl⟩ : ∃ k, levels = k + 1 := ⟨levels - 1, by omega⟩
        have hquiet := htalk r hr
        cases r with
        | startConversation | selectOption | navigate | endConversation | disconnect => cases hquiet
        | talkState => exact Act.keeps_bind Act.keeps_get fun _ => Act.keeps_pure _
        | startObjective id => exact hstarts id hr
        | cancelObjective id => exact hcancels id
        | completeObjective id => exact hcomplete m (Nat.le_succ m) (by omega) id hr
        | note entry => exact Act.keeps_modify fun _ he => he.congr rfl rfl
      start := hstarts
      cancel := fun id _ => hcancels id
      complete := hcomplete levels le_rfl (by omega)
      overflow := nofun }

/-! ### Commands -/

variable {R : Conversation → Prop}

/-- So does all that is done on behalf of a player. -/
theorem keptByPlay_of_settled (hsettled : K.Settled) (hK : K.Authored A R)
    (htalk : ∀ r, .request r ∈ A → r.ofTalk = false)
    (hlevels : 2 * K.objectives.card + 1 < levels) :
    KeptByPlay (nested levels) p A true K (Authored A R K) (· ≠ .tooDeep) := by
  -- Two levels for each objective are enough, whatever is active.
  have hends : ∀ m, 2 * K.objectives.card < m →
      KeptByContent (nested m) p A false (ActiveIn K p Set.univ) (· ≠ .tooDeep) := fun m hm =>
    keptByContent_of_settled hsettled hm htalk (fun o _ => hK.within.setsOff_subset o)
      (fun _ _ => Set.mem_univ _) fun o definition _ _ hdefined => Packages.mem_objectives hdefined
  have hplay := authored_play hK levels p
  have hactive : ∀ e, Authored A R K e → ActiveIn K p Set.univ e := fun e he =>
    ⟨he.packages, fun _ _ _ => Set.mem_univ _⟩
  obtain ⟨m, rfl⟩ : ∃ k, levels = k + 1 := ⟨levels - 1, by omega⟩
  have hcontent := hends (m + 1) (by omega)
  have hcontent' : KeptByContent (nested (m + 1)) p A true (Authored A R K) (· ≠ .tooDeep) :=
    { toKeptAside := hplay.content.toKeptAside
      ask := fun r hr => (hplay.content.ask r hr).halting (hcontent.ask r hr) hactive
      start := fun id hr => (hplay.content.start id hr).halting (hcontent.start id hr) hactive
      cancel := fun id hr => (hplay.content.cancel id hr).halting (hcontent.cancel id hr) hactive
      complete := fun id hr =>
        (hplay.content.complete id hr).halting (hcontent.complete id hr) hactive
      overflow := nofun }
  exact
    { within := hplay.within
      content := hcontent'
      changes := hplay.changes
      talks := (authored_keptByTalk hK p).scenes hcontent'
      follow := fun {e held id x active definition} he hdefined hx hfind => by
        have hA := hK.within .objective _ _ hdefined
        simp only [Kind.demands, Objective.demands, Set.union_subset_iff] at hA
        have hfire := Action.fireEach_keeps (hends m (by omega))
          ((Action.demandsOf_mono definition.events).trans hA.2)
        have hcompleted : (e.completed p held x active).ActiveIn K p Set.univ :=
          ⟨he.packages, fun _ _ _ => Set.mem_univ _⟩
        exact (hplay.follow he hdefined hx hfind).halting (hfire _ hcompleted) }

/-- Where packages are settled and ask for no conversations, every command comes to an end. -/
theorem perform_ne_tooDeep {e : Engine} (he : e.Authored A R e.packages)
    (hK : e.packages.Authored A R) (hsettled : e.packages.Settled)
    (htalk : ∀ r, .request r ∈ A → r.ofTalk = false)
    (hlevels : 2 * e.packages.objectives.card + 1 < levels) (c : Command) :
    e.perform levels c ≠ .error .tooDeep := by
  intro h
  rcases c.mode_cases with ⟨records, rfl⟩ | ⟨packages, rfl⟩ | ⟨hmode, -⟩
  · have hkeeps : (Objectives.restore records).Keeps (fun _ => True) fun _ => False :=
      Objectives.restore_keeps (fun _ _ _ _ _ => trivial) records
    exact (hkeeps e trivial).of_halt h
  · have hreload : ∀ p, KeptByReload p packages fun _ => True := fun _ =>
      ⟨fun _ _ _ => trivial, fun _ _ _ _ => trivial, fun _ _ => trivial⟩
    have hkeeps : (Objectives.reconcile packages).Keeps (fun _ => True) fun _ => False :=
      Objectives.reconcile_keeps hreload
    exact (hkeeps { e with packages } trivial).of_halt h
  · have hkeeps := Command.perform_keeps (authored_keptByHost hK (H := (· ≠ .tooDeep)) nofun)
      (fun p => keptByPlay_of_settled hsettled hK htalk hlevels) c
      (fun event _ => authored_keptByDeferral event.player)
      (fun records hc => by subst hc; cases hmode) fun packages hc => by subst hc; cases hmode
    exact (hkeeps e he).of_halt h rfl

/-- **Settled content terminates.**  After any run over packages of built-in keywords, if the
packages in force are settled, no command needs more levels of nesting than twice as many as there
are objectives, and two: whatever is done, for whatever player, comes to an end. -/
theorem Engine.terminates {levels levels' : Nat} {cs : List Command} {registry : Registry}
    {integrations : Integrations} {world : World} {archived : Bool} {screen : String}
    {clock : Calendar.Timestamp} {dice : Dice} {e : Engine}
    (hkeywords : ∀ packages, .replacePackages packages ∈ cs → packages.OfKeywords)
    (hrun : performAll levels cs (fresh registry integrations world archived screen clock dice) =
      .ok e)
    (hsettled : e.packages.Settled) (hlevels : 2 * e.packages.objectives.card + 1 < levels')
    (c : Command) : e.perform levels' c ≠ .error .tooDeep := by
  obtain ⟨hK, he⟩ := authored_of_keywords hkeywords hrun
  exact perform_ne_tooDeep he hK hsettled (fun _ => Demand.ofTalk_of_ofKeywords) hlevels c

/-! ### Content that does not come to an end -/

/-- Completing the objective starts it again, and completes it again. -/
def Objective.Recurs (o : Objective) (id : ObjectId) : Prop :=
  ∃ again done, o.events =
    [⟨again, ⟨[], .objective .start id⟩⟩, ⟨done, ⟨[], .objective .complete id⟩⟩]

section

variable {n : Nested} {e : Engine} {H : Halt → Prop} {id : ObjectId} {definition : Objective}

/-- A step that may not answer halts. -/
theorem Act.Ensures.run_eq {α : Type} {a : Act α} {h : Halt}
    (ha : a.Ensures e (· = h) fun _ _ => False) : a.run e = .error h := by
  unfold Act.Ensures at ha
  cases hrun : a.run e with
  | ok r =>
    rw [hrun] at ha
    exact ha.elim
  | error err =>
    rw [hrun] at ha
    exact congrArg _ ha

theorem Eval.ensures_lift_bind {α β : Type} {a : Act α} {f : α → Eval β} {R : Engine → Prop}
    (ha : a.Ensures e H fun _ => R) (hf : ∀ x, (f x).Keeps R H) :
    Act.Ensures (ExceptT.run (liftM a >>= f)) e H fun _ => R := by
  rw [ExceptT.run_bind]
  refine Act.ensures_bind (R := fun _ => R) (Act.ensures_map ha) fun r e' _ he' => ?_
  rcases r with err | x
  · exact he'
  · exact hf x e' he'

/-- An event without conditions that changes an objective, and the events that follow it. -/
theorem fireEach_ensures {action : ObjectiveChange} {event : ObjectId} {rest : List EventRef}
    {R : Engine → Prop} {R' : Unit → Engine → Prop}
    (hchange : Act.Ensures (ExceptT.run (Eval.changeObjective n p action id)) e H fun _ => R)
    (hrest : ∀ e', R e' → (Action.fireEach n p rest).Ensures e' H R') :
    (Action.fireEach n p (⟨event, ⟨[], .objective action id⟩⟩ :: rest)).Ensures e H R' := by
  refine Act.ensures_bind (R := fun _ => R) (Act.ensures_map ?_) fun _ e' _ => hrest e'
  simp only [Action.fire, allHold, pure_bind, if_true]
  exact Act.ensures_bind (R := fun _ => R) (Act.ensures_map hchange) fun _ _ _ he' => he'

theorem start_ensures (hdefined : e.packages.get .objective id = .ok definition)
    (hinactive : e.progress.find? p id = none) :
    (Objectives.start p id).Ensures e H fun _ e' => e' = e.begun p id definition.goal.initial := by
  refine Act.ensures_objective_bind ?_
  rw [hdefined]
  refine Act.ensures_get_bind ?_
  rw [Slots.isActive, hinactive]
  exact rfl

theorem complete_ensures {active : Active} {held : Nat} {R : Engine → Prop}
    (hdefined : e.packages.get .objective id = .ok definition)
    (hheld : e.progress.held? p = some held) (hactive : e.progress.findIn? p held id = some active)
    (hfire : (n.fire p definition.events).Ensures (e.completed p held id active) H
      fun _ e' => R (e'.pruned p held)) :
    (Objectives.complete n p id).Ensures e H fun _ => R := by
  have hremove : (Objectives.remove p held id none .completed).run e =
      .ok (some active.epoch, e.removed p held id active .completed) := by
    rw [Objectives.remove_run, hactive]
    rfl
  refine Act.ensures_objective_bind ?_
  rw [hdefined]
  refine Act.ensures_get_bind ?_
  rw [hheld]
  refine Act.ensures_bind (R := fun removed e' => removed = some active.epoch ∧
    e' = e.removed p held id active .completed)
    ((Act.ensures_of_run hremove).2 ⟨rfl, rfl⟩) ?_
  rintro _ _ - ⟨rfl, rfl⟩
  exact Objectives.ensures_finish_bind hfire

/-- What starts and completes itself once more comes to an end on no number of levels. -/
theorem complete_never_returns (hrecurs : definition.Recurs id) (levels : Nat)
    (hdefined : e.packages.get .objective id = .ok definition) {active : Active}
    (hactive : e.progress.find? p id = some active) :
    (Objectives.complete (nested levels) p id).run e = .error .tooDeep := by
  suffices h : (Objectives.complete (nested levels) p id).Ensures e (· = .tooDeep)
      fun _ _ => False from h.run_eq
  induction levels generalizing e active with
  | zero =>
    obtain ⟨held, hheld, hfound⟩ := e.progress.exists_findIn?_of_find? p id hactive
    exact complete_ensures hdefined hheld hfound (Act.ensures_halt rfl)
  | succ levels ih =>
    obtain ⟨held, hheld, hfound⟩ := e.progress.exists_findIn?_of_find? p id hactive
    obtain ⟨again, done, hevents⟩ := hrecurs
    refine complete_ensures hdefined hheld hfound ?_
    -- The objective has ended, so that it is started again, and then there is a level less.
    have hended : (e.completed p held id active).progress.find? p id = none := by
      refine (e.find?_ended p p held id id .completed hfound).trans ?_
      rw [if_pos ⟨rfl, rfl⟩]
    have hdefined' : (e.completed p held id active).packages.get .objective id = .ok definition :=
      hdefined
    rw [hevents]
    show (Action.fireEach (nested levels) p _).Ensures _ _ _
    refine fireEach_ensures (Eval.ensures_lift_bind (start_ensures hdefined' hended)
      fun _ => Eval.found_keeps _) fun e' he' => ?_
    refine fireEach_ensures (R := fun _ => False) ?_ fun _ h => h.elim
    have hpackages : e'.packages.get .objective id = .ok definition := by
      rw [he', Engine.packages_begun]
      exact hdefined'
    have hagain := Engine.find?_begun (e.completed p held id active) p p id id
      definition.goal.initial
    rw [if_pos ⟨rfl, rfl⟩, ← he'] at hagain
    exact Eval.ensures_lift_bind (ih hpackages hagain) fun _ => Eval.found_keeps _

end

/-! ### A mill -/

/-- A wolf to kill, and the events that are fired when it is done. -/
def mill (events : String) : Sources where
  packages := (∅ : Table String PackageSource).insert "mill" { PackageSource.empty with
    events := .ofList [("again", "objective start run"), ("done", "objective complete run")]
    objectives := .ofList [("run", "mobkill wolf 1 events:" ++ events)] }

/-- What the built-in keywords make of a mill. -/
def milled (events : String) : Packages :=
  Packages.compile (Vocabulary.registry ⟨true, true⟩) (mill events)

/-- The objective of a mill. -/
def millRun : ObjectId := ⟨"mill", "run"⟩

/-- A mill is put in force, and its run is started. -/
def milling (events : String) : List Command :=
  [.replacePackages (milled events), .request ⟨"ann"⟩ (.startObjective millRun)]

/-- Packages whose completion events only start objectives. -/
def Packages.onlyStarts (K : Packages) : Bool :=
  K.built.objectives.entries.all fun x =>
    match x.2.events with
    | [⟨_, ⟨[], .objective .start _⟩⟩] => true
    | _ => false

theorem Packages.settled_of_onlyStarts {K : Packages} (h : K.onlyStarts = true) : K.Settled := by
  refine settled_of_not_completes ?_
  rintro o x ⟨definition, hdefined, hcompletes⟩
  have hmem : (o, definition) ∈ K.built.objectives.entries :=
    Table.mem_entries_of_find? (Packages.find?_of_get hdefined)
  have hevents := List.all_eq_true.1 h _ hmem
  dsimp only at hevents
  split at hevents
  · rename_i heq
    rw [heq] at hcompletes
    simp [Action.demandsOf, Action.demands, Condition.demandsOf, ObjectiveChange.request]
      at hcompletes
  · cases hevents

/-- A run that starts itself again when it is completed comes to an end. -/
theorem Engine.terminates_of_again : ∃ e, performAll 1 (milling "again") idle = .ok e ∧
    e.progress.isActive ⟨"ann"⟩ millRun = true ∧ ∀ c, e.perform 4 c ≠ .error .tooDeep := by
  have hmilled : milled "again" =
      compileWithin (Vocabulary.registry ⟨true, true⟩) (mill "again") 4 :=
    (compileWithin_eq (show 3 < 4 by decide) (by decide +kernel)).symm
  have h : passes (performAll 1 (milling "again") idle) (fun e =>
      e.progress.isActive ⟨"ann"⟩ millRun && e.packages.onlyStarts &&
        e.packages.objectives.card == 1) = true := by
    rw [milling, hmilled]
    decide +kernel
  obtain ⟨e, hrun, h⟩ := exists_of_passes h
  simp only [Bool.and_eq_true, beq_iff_eq] at h
  obtain ⟨⟨hactive, honly⟩, hcard⟩ := h
  have hkeywords : ∀ packages, .replacePackages packages ∈ milling "again" →
      packages.OfKeywords := by
    intro packages hmem
    obtain rfl : packages = milled "again" := by simpa [milling] using hmem
    exact ⟨_, _, rfl⟩
  exact ⟨e, hrun, hactive, terminates hkeywords hrun (Packages.settled_of_onlyStarts honly)
    (by rw [hcard]; decide)⟩

/-- Packages with a mill whose completion events start its run and complete it. -/
def Packages.millsOn (K : Packages) : Bool :=
  match K.get .objective millRun with
  | .ok ⟨_, _, _, [⟨_, ⟨[], .objective .start a⟩⟩, ⟨_, ⟨[], .objective .complete b⟩⟩]⟩ =>
    a == millRun && b == millRun
  | _ => false

theorem Packages.exists_of_millsOn {K : Packages} (h : K.millsOn = true) :
    ∃ definition, K.get .objective millRun = .ok definition ∧ definition.Recurs millRun := by
  unfold millsOn at h
  split at h
  · rename_i again a done b hdefined
    obtain ⟨rfl, rfl⟩ : a = millRun ∧ b = millRun := by simpa using h
    exact ⟨_, hdefined, again, done, rfl⟩
  · cases h

/-- **Content that does not come to an end.**  A run that starts and completes itself when it is
completed is compiled without a complaint, and is started.  There is no number of levels on which
its completion comes to an end. -/
theorem Engine.never_returns : (milled "again,done").diagnostics = [] ∧
    ∃ e, performAll 1 (milling "again,done") idle = .ok e ∧
      ∀ levels, e.perform levels (.request ⟨"ann"⟩ (.completeObjective millRun)) =
        .error .tooDeep := by
  have hmilled : milled "again,done" =
      compileWithin (Vocabulary.registry ⟨true, true⟩) (mill "again,done") 4 :=
    (compileWithin_eq (show 3 < 4 by decide) (by decide +kernel)).symm
  have h : passes (performAll 1 (milling "again,done") idle) (fun e =>
      e.progress.isActive ⟨"ann"⟩ millRun && e.packages.millsOn) = true := by
    rw [milling, hmilled]
    decide +kernel
  refine ⟨by rw [hmilled]; decide +kernel, ?_⟩
  obtain ⟨e, hrun, h⟩ := exists_of_passes h
  refine ⟨e, hrun, fun levels => ?_⟩
  obtain ⟨hactive, hmills⟩ := Bool.and_eq_true_iff.1 h
  obtain ⟨active, hactive⟩ := Option.isSome_iff_exists.1 hactive
  obtain ⟨definition, hdefined, hrecurs⟩ := Packages.exists_of_millsOn hmills
  exact complete_never_returns hrecurs levels hdefined hactive

end Questbook
