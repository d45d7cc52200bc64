/-
Questbook/Proofs/Engine/Authored.lean

Whatever runs at any time has come out of packages.

A session goes on with the conversation it began with, and a delayed folder keeps its events,
whatever packages are put in force meanwhile.  So a property of all packages that a run puts in
force is a property of what its sessions and tasks hold as well: what they may ask for, and how
their conversations are made.

Main result: `authored_of_performAll`.
-/
import Mathlib.Data.List.Induction
import Questbook.Proofs.Engine.Perform
import Questbook.Proofs.Package.Vocabulary

namespace Questbook

variable {A : Set Demand} {R : Conversation → Prop} {K : Packages}

/-- The definitions of packages keep within `A`, and their conversations are made as `R` says. -/
structure Packages.Authored (A : Set Demand) (R : Conversation → Prop) (K : Packages) : Prop where
  within : K.Within A true
  talks : ∀ id talk, K.get .conversation id = .ok talk → R talk

/-- The packages `K` are in force, and what waits in sessions and tasks keeps within `A`. -/
structure Engine.Authored (A : Set Demand) (R : Conversation → Prop) (K : Packages) (e : Engine) :
    Prop where
  packages : e.packages = K
  talks : ∀ p session, e.sessions.find? p = some session →
    session.talk.demands true ⊆ A ∧ R session.talk
  tasks : ∀ a ∈ e.agenda.waiting, a.task.demands true ⊆ A

theorem Packages.authored_empty : Packages.empty.Authored A R where
  within k id d h := by
    obtain ⟨err, herr⟩ : ∃ err, Packages.empty.get k id = .error err := ⟨_, rfl⟩
    cases herr.symm.trans h
  talks id talk h := by
    obtain ⟨err, herr⟩ : ∃ err, Packages.empty.get .conversation id = .error err := ⟨_, rfl⟩
    cases herr.symm.trans h

/-- Packages that are compiled with the built-in keywords. -/
def Packages.OfKeywords (K : Packages) : Prop :=
  ∃ i sources, K = Packages.compile (Vocabulary.registry i) sources

theorem Packages.OfKeywords.authored (h : K.OfKeywords) :
    K.Authored Demand.ofKeywords Conversation.Closed := by
  obtain ⟨i, sources, rfl⟩ := h
  exact ⟨fun _ _ _ hd => (compile_plain hd).1, fun _ _ htalk => (compile_plain htalk).2⟩

theorem Demand.ofTalk_of_ofKeywords {r : Request} (h : .request r ∈ Demand.ofKeywords) :
    r.ofTalk = false := by
  rcases h with h | ⟨action, id, h⟩
  · cases h
  · cases h
    cases action <;> rfl

namespace Engine

variable {e e' : Engine} {p : PlayerId}

/-- A change that touches neither packages nor sessions nor tasks. -/
theorem Authored.congr (h : e.Authored A R K) (hpackages : e'.packages = e.packages)
    (hsessions : e'.sessions = e.sessions) (hagenda : e'.agenda = e.agenda) :
    e'.Authored A R K where
  packages := hpackages.trans h.packages
  talks := hsessions ▸ h.talks
  tasks := hagenda ▸ h.tasks

/-- Scheduling tasks that keep within `A`. -/
theorem Authored.later (h : e.Authored A R K) {tasks : List (Nat × Task)} {agenda : Agenda Task}
    (hA : ∀ t ∈ tasks, t.2.demands true ⊆ A) (hagenda : e.agenda.afterAll? tasks = some agenda) :
    Authored A R K { e with agenda } where
  packages := h.packages
  talks := h.talks
  tasks a ha := by
    rcases Agenda.mem_of_afterAll? hagenda ha with hbefore | ⟨ticks, hmem, -⟩
    · exact h.tasks a hbefore
    · exact hA _ hmem

theorem Authored.begun (h : e.Authored A R K) (p : PlayerId) (id : ObjectId) (data : Json) :
    (e.begun p id data).Authored A R K :=
  h.congr (e.packages_begun p id data) (e.sessions_begun p id data) (e.agenda_begun p id data)

theorem Authored.enter (h : e.Authored A R K) (p : PlayerId) (id : ObjectId) (data : Json)
    (startedAt : Calendar.Timestamp) : (e.enter p id data startedAt).2.Authored A R K :=
  h.congr (e.packages_enter p id data startedAt) (e.sessions_enter p id data startedAt)
    (e.agenda_enter p id data startedAt)

/-- Setting the session of a player to one with a conversation that is made so. -/
theorem Authored.talk (h : e.Authored A R K) {session : Session}
    (hA : session.talk.demands true ⊆ A ∧ R session.talk) (nextNumber : Nat)
    (chronicle : Chronicle) :
    Authored A R K
      { e with sessions := ⟨e.sessions.current.insert p session, nextNumber, chronicle⟩ } where
  packages := h.packages
  talks q other hother := by
    have hother : (e.sessions.current.insert p session).find? q = some other := hother
    rw [Table.find?_insert] at hother
    split at hother
    · cases hother
      exact hA
    · exact h.talks q other hother
  tasks := h.tasks

/-! ### What keeps it -/

theorem authored_keptByAll (hK : K.Authored A R) (p : PlayerId) :
    KeptByAll p A true K fun _ : Unit => Authored A R K where
  within := hK.within
  changes _ :=
    { dice := fun he => he.congr rfl rfl rfl
      place := fun _ _ he => he.congr rfl rfl rfl
      join := fun _ he => he.congr rfl rfl rfl
      render := fun _ he => he.congr rfl rfl rfl
      note := fun _ he => he.congr rfl rfl rfl
      later := fun he hown hagenda => he.later (fun t ht => (hown t ht).demands) hagenda
      packages := fun he => he.packages
      start := fun he _ _ => he.begun _ _ _
      store := fun he _ _ _ => he.congr rfl rfl rfl
      cancel := fun he _ => he.congr rfl rfl rfl
      prune := fun _ he => he.congr rfl rfl rfl }
  complete he _ := ⟨(), he.congr rfl rfl rfl, fun _ he => he.congr rfl rfl rfl⟩

/-- A check that keeps within `A` is put off. -/
theorem authored_keptByDeferral (p : PlayerId) : KeptByDeferral p A (Authored A R K) where
  defer {e id epoch check agenda} he hcheck hagenda := by
    have hA : ∀ t ∈ [(1, Task.recheck p id epoch check)], t.2.demands true ⊆ A := by
      intro t ht
      obtain rfl := List.mem_singleton.1 ht
      exact hcheck
    exact he.later hA hagenda

theorem authored_keptByTalk (hK : K.Authored A R) (p : PlayerId) :
    KeptByTalk p A true K (Authored A R K) where
  talk he hsession := (he.talks p _ hsession).1
  seat {e id talk} screen he hdefined _ := by
    let session : Session := ⟨e.sessions.nextNumber, talk, .resolving, [], screen⟩
    have hA : session.talk.demands true ⊆ A ∧ R session.talk :=
      ⟨hK.within .conversation id talk hdefined, hK.talks id talk hdefined⟩
    exact he.talk hA _ _
  put session' he hsession htalk _ _ := by
    have htalks := he.talks p _ hsession
    rw [← htalk] at htalks
    exact he.talk htalks _ _
  drop {e session} he _ :=
    { packages := he.packages
      talks := fun q other hother => by
        have hother : (e.sessions.current.erase p).find? q = some other := hother
        rw [Table.find?_erase] at hother
        split at hother
        · cases hother
        · exact he.talks q other hother
      tasks := he.tasks }
  tell _ _ he := ⟨he.packages, he.talks, he.tasks⟩

theorem authored_play (hK : K.Authored A R) (levels : Nat) (p : PlayerId) :
    KeptByPlay (nested levels) p A true K (Authored A R K) fun _ => True :=
  (authored_keptByAll hK p).keptByPlay (fun _ => authored_keptByTalk hK p) trivial trivial levels ()

theorem authored_keptByHost (hK : K.Authored A R) {H : Halt → Prop} (hoverflow : H .overflow) :
    KeptByHost A true K (Authored A R K) H where
  within := hK.within
  packages he := he.packages
  note _ he := he.congr rfl rfl rfl
  remind he hreminders hagenda := he.later (fun t ht => by
    obtain ⟨r, hr⟩ := hreminders t ht
    rw [hr]
    exact Set.empty_subset A) hagenda
  tick he := ⟨he.packages, he.talks, fun a ha => he.tasks a (Agenda.mem_of_mem_rest ha)⟩
  tasks he hs := he.tasks _ hs
  clock _ he := he.congr rfl rfl rfl
  world _ he := he.congr rfl rfl rfl
  overflow := hoverflow

theorem authored_keptByReload (p : PlayerId) : KeptByReload p K (Authored A R K) where
  drop he _ _ := he.congr rfl rfl rfl
  renew he _ _ _ := he.congr rfl rfl rfl
  prune _ he := he.congr rfl rfl rfl

/-! ### Runs -/

theorem perform_authored {levels : Nat} {c : Command} {answer : c.Answer} (he : e.Authored A R K)
    (hK : K.Authored A R)
    (hreload : ∀ packages, c = .replacePackages packages → packages.Authored A R)
    (h : e.perform levels c = .ok (answer, e')) :
    ∃ K', K'.Authored A R ∧ e'.Authored A R K' := by
  rcases c.mode_cases with ⟨records, rfl⟩ | ⟨packages, rfl⟩ | ⟨hmode, -⟩
  · have hkeeps : (Objectives.restore records).Keeps (Authored A R K) fun _ => True :=
      Objectives.restore_keeps (fun _ _ he _ _ => he.enter _ _ _ _) records
    exact ⟨K, hK, hkeeps.of_run he h⟩
  · have hkeeps : (Objectives.reconcile packages).Keeps (Authored A R packages) fun _ => True :=
      Objectives.reconcile_keeps authored_keptByReload
    exact ⟨packages, hreload _ rfl, hkeeps.of_run (e := { e with packages }) ⟨rfl, he.2, he.3⟩ h⟩
  · have hkeeps : (c.perform (nested levels)).Keeps (Authored A R K) fun _ => True :=
      Command.perform_keeps (authored_keptByHost hK trivial) (fun p => authored_play hK levels p) c
        (fun event _ => authored_keptByDeferral event.player)
        (fun records hc => by subst hc; cases hmode) fun packages hc => by subst hc; cases hmode
    exact ⟨K, hK, hkeeps.of_run he h⟩

/-- **Content comes out of packages.**  What all packages keep to that a run puts in force, its
sessions and tasks keep to at its end, and so do the packages that are in force then. -/
theorem authored_of_performAll {levels : Nat} {cs : List Command} {e₀ : Engine}
    (he₀ : e₀.Authored A R K) (hK : K.Authored A R)
    (hreload : ∀ packages, .replacePackages packages ∈ cs → packages.Authored A R)
    (hrun : performAll levels cs e₀ = .ok e) :
    e.packages.Authored A R ∧ e.Authored A R e.packages := by
  suffices h : ∃ K, K.Authored A R ∧ e.Authored A R K by
    obtain ⟨K, hK, he⟩ := h
    exact he.packages.symm ▸ ⟨hK, he⟩
  induction cs using List.reverseRecOn generalizing e with
  | nil =>
    cases hrun
    exact ⟨K, hK, he₀⟩
  | append_singleton cs c ih =>
    obtain ⟨e₁, answer, hbefore, hlast⟩ := performAll_concat hrun
    obtain ⟨K₁, hK₁, he₁⟩ :=
      ih (fun packages h => hreload packages (List.mem_append_left _ h)) hbefore
    refine perform_authored he₁ hK₁ (fun packages hc => ?_) hlast
    exact hreload packages (List.mem_append_right _ (List.mem_singleton.2 hc.symm))

theorem authored_fresh (registry : Registry) (integrations : Integrations) (world : World)
    (archived : Bool) (screen : String) (clock : Calendar.Timestamp) (dice : Dice) :
    (fresh registry integrations world archived screen clock dice).Authored A R Packages.empty where
  packages := rfl
  talks _ _ h := by cases h
  tasks _ h := by cases h

/-- Where all packages are written with the built-in keywords, what runs changes objectives and
leaves something to luck, and does nothing else besides. -/
theorem authored_of_keywords {levels : Nat} {cs : List Command} {registry : Registry}
    {integrations : Integrations} {world : World} {archived : Bool} {screen : String}
    {clock : Calendar.Timestamp} {dice : Dice}
    (hkeywords : ∀ packages, .replacePackages packages ∈ cs → packages.OfKeywords)
    (hrun : performAll levels cs (fresh registry integrations world archived screen clock dice) =
      .ok e) :
    e.packages.Authored Demand.ofKeywords Conversation.Closed ∧
      e.Authored Demand.ofKeywords Conversation.Closed e.packages :=
  authored_of_performAll (authored_fresh _ _ _ _ _ _ _) Packages.authored_empty
    (fun packages h => (hkeywords packages h).authored) hrun

/-- An engine with the built-in keywords, before its first packages. -/
def idle : Engine :=
  fresh (Vocabulary.registry ⟨true, true⟩) ⟨true, true⟩ World.empty true "simple" ⟨0, 0⟩
    fun _ => 0

end Engine

end Questbook
