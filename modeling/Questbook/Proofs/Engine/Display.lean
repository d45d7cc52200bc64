/-
Questbook/Proofs/Engine/Display.lean

What players are shown of their sessions.

A moment of a session is written down where its frames are handed to the player.  Content shows him
other things as well, but nothing in the engine takes away what he has been handed; only the host
collects it, and only the host can put another world in the place of the one there is.  So what the
stories of a player's sessions tell of is found in the output that waits for him, in the order in
which it happened and each of it as often.

Main result: `shown_of_performAll`.
-/
import Mathlib.Data.List.Flatten
import Questbook.Proofs.Engine.Perform

namespace Questbook

/-! ### Output and stories -/

/-- The output that waits for a player, oldest first. -/
def World.output (w : World) (p : PlayerId) : List Frame := ((w.frames.find? p).getD []).reverse

/-- What has been shown to a player of his sessions, oldest first. -/
def Sessions.shownTo (s : Sessions) (p : PlayerId) : List Frame :=
  (s.chronicle.reverse.filter (·.player = p)).flatMap (·.what.frames)

section

variable {w : World} {s : Sessions} {p q : PlayerId} {number : Nat}

/-- What is handed to a player comes last in his output. -/
theorem World.output_render (fs : List Frame) :
    (w.render p fs).output q = if p = q then w.output q ++ fs else w.output q := by
  unfold render output
  cases fs with
  | nil => simp
  | cons f rest =>
    rw [if_neg (by simp), Table.find?_insert]
    split
    · rename_i hp
      subst hp
      simp
    · rfl

theorem World.output_sublist_render (fs : List Frame) :
    (w.output q).Sublist ((w.render p fs).output q) := by
  rw [output_render]
  split
  · exact List.sublist_append_left _ _
  · exact .refl _

namespace Sessions

theorem shownTo_tell (what : Moment) : (s.tell p number what).shownTo q =
    if p = q then s.shownTo q ++ what.frames else s.shownTo q := by
  unfold shownTo tell
  rw [List.reverse_cons, List.filter_append, List.flatMap_append]
  by_cases hp : p = q <;> simp [hp]

/-- Nothing is shown yet where a session begins. -/
theorem shownTo_start (talk : Conversation) (screen : Screen) :
    (s.start p talk screen).2.shownTo q = s.shownTo q := by
  show (s.tell p s.nextNumber (.began talk screen.style)).shownTo q = _
  rw [shownTo_tell, Moment.frames, List.append_nil, ite_self]

/-- What a session has shown that was always one player's has been shown to him. -/
theorem frames_sublist_shownTo {moments : List Moment}
    (hstory : s.story number = moments.map (p, ·)) :
    ((s.story number).flatMap fun x => x.2.frames).Sublist (s.shownTo p) := by
  -- To leave out the moments of other players leaves out none of this session.
  have hplayer : ∀ x ∈ s.chronicle.reverse.filter (·.number = number), x.player = p := by
    intro x hx
    have hmem : (x.player, x.what) ∈ s.story number := by
      rw [story, Chronicle.story, ← List.filter_reverse]
      exact List.mem_map_of_mem hx
    rw [hstory] at hmem
    obtain ⟨_, -, hx⟩ := List.mem_map.1 hmem
    exact (congrArg Prod.fst hx).symm
  rw [story, Chronicle.story, ← List.filter_reverse, List.flatMap_map, shownTo]
  refine List.Sublist.flatMap ?_ _
  rw [← List.filter_eq_self.2 fun x hx => decide_eq_true (hplayer x hx)]
  exact List.filter_sublist.filter _

end Sessions

end

/-! ### What is kept -/

namespace Engine

/-- The packages `K` are in force, and what the stories of sessions have shown to players is in
their output. -/
structure Displayed (K : Packages) (e : Engine) : Prop where
  packages : e.packages = K
  shown (q : PlayerId) : (e.sessions.shownTo q).Sublist (e.world.output q)

variable {K : Packages} {e e' : Engine} {p : PlayerId} {levels : Nat} {c : Command}
  {cs : List Command}

theorem Displayed.told (he : e.Displayed K) (number : Nat) (what : Moment) :
    (e.told p number what).Displayed K where
  packages := he.packages
  shown q := by
    show (Sessions.shownTo (e.sessions.tell p number what) q).Sublist
      ((e.world.render p what.frames).output q)
    rw [Sessions.shownTo_tell, World.output_render]
    split
    · exact (he.shown q).append (.refl _)
    · exact he.shown q

theorem displayed_keptByAll (p : PlayerId) :
    KeptByAll p Set.univ true K fun _ : Unit => Displayed K where
  within _ _ _ _ := Set.subset_univ _
  changes _ :=
    { dice := fun he => ⟨he.1, he.2⟩
      place := fun _ _ he => ⟨he.1, he.2⟩
      join := fun _ he => ⟨he.1, he.2⟩
      render := fun frames he =>
        ⟨he.1, fun q => (he.shown q).trans (World.output_sublist_render frames)⟩
      note := fun _ he => ⟨he.1, he.2⟩
      later := fun he _ _ => ⟨he.1, he.2⟩
      packages := fun he => he.packages
      start := fun {e id _} he _ _ => ⟨(e.packages_begun p id _).trans he.packages, fun q => by
        rw [sessions_begun, world_begun]
        exact he.shown q⟩
      store := fun he _ _ _ => ⟨he.1, he.2⟩
      cancel := fun he _ => ⟨he.1, he.2⟩
      prune := fun _ he => ⟨he.1, he.2⟩ }
  complete he _ := ⟨(), ⟨he.1, he.2⟩, fun _ he' => ⟨he'.1, he'.2⟩⟩

theorem displayed_keptByTalk (p : PlayerId) : KeptByTalk p Set.univ true K (Displayed K) where
  talk _ _ := Set.subset_univ _
  seat {_ _ talk} screen he _ _ := ⟨he.packages, fun q => by
    rw [Sessions.shownTo_start]
    exact he.shown q⟩
  put _ he _ _ _ _ := ⟨he.1, he.2⟩
  drop he _ := ⟨he.1, he.2⟩
  tell number what he := he.told number what

theorem displayed_keptByTime : KeptByTime Set.univ true K (Displayed K) fun _ => True where
  within _ _ _ _ := Set.subset_univ _
  packages he := he.packages
  note _ he := ⟨he.1, he.2⟩
  remind he _ _ := ⟨he.1, he.2⟩
  tick he := ⟨he.1, he.2⟩
  tasks _ _ := Set.subset_univ _
  clock _ he := ⟨he.1, he.2⟩
  overflow := trivial

theorem displayed_keptByDeferral (p : PlayerId) : KeptByDeferral p Set.univ (Displayed K) where
  defer he _ _ := ⟨he.1, he.2⟩

/-! ### Runs -/

/-- The host does not take output away by changing the world. -/
def Lasting (cs : List Command) : Prop :=
  ∀ f, .changeWorld f ∈ cs → ∀ (w : World) q, (w.output q).Sublist ((f w).output q)

/-- A command leaves in the output of players what their stories have shown. -/
theorem shown_of_perform {answer : c.Answer} (hlasting : Lasting [c])
    (he : ∀ q, (e.sessions.shownTo q).Sublist (e.world.output q))
    (h : e.perform levels c = .ok (answer, e')) (q : PlayerId) :
    (e'.sessions.shownTo q).Sublist (e'.world.output q) := by
  -- Neither storage nor a reload shows anything, so that only play is left.
  rcases c.mode_cases with ⟨records, rfl⟩ | ⟨packages, rfl⟩ | ⟨hmode, -⟩
  · have hkeeps : (Objectives.restore records).Keeps
        (fun e => (e.sessions.shownTo q).Sublist (e.world.output q)) fun _ => True :=
      Objectives.restore_keeps
        (fun p startedAt he _ _ => by rwa [sessions_enter, world_enter]) records
    exact hkeeps.of_run (he q) h
  · have hreload : ∀ p, KeptByReload p packages fun e =>
        (e.sessions.shownTo q).Sublist (e.world.output q) := fun _ =>
      ⟨fun he _ _ => he, fun he _ _ _ => he, fun _ he => he⟩
    have hkeeps : (Objectives.reconcile packages).Keeps
        (fun e => (e.sessions.shownTo q).Sublist (e.world.output q)) fun _ => True :=
      Objectives.reconcile_keeps hreload
    exact hkeeps.of_run (e := { e with packages }) (he q) h
  · have hP : ∀ p, KeptByPlay (nested levels) p Set.univ true e.packages
        (Displayed e.packages) fun _ => True := fun p =>
      (displayed_keptByAll p).keptByPlay (fun _ => displayed_keptByTalk p) trivial trivial levels ()
    have hkeeps := c.perform_keeps_of_request displayed_keptByTime
      (fun p => (hP p).toKeptByGoals) (fun event _ => displayed_keptByDeferral event.player)
      (fun p r _ => r.answer_keeps (hP p))
      (fun f hf => Act.keeps_modify fun _ he => ⟨he.packages, fun q =>
        (he.shown q).trans (hlasting f (List.mem_singleton.2 hf.symm) _ q)⟩)
      (fun records hc => by subst hc; cases hmode) fun packages hc => by subst hc; cases hmode
    exact (hkeeps.of_run ⟨rfl, he⟩ h).shown q

/-- **What the stories of his sessions have shown to a player is in his output**, after any run in
which the host takes nothing out of it. -/
theorem shown_of_performAll {start : Engine}
    (hstart : ∀ q, (start.sessions.shownTo q).Sublist (start.world.output q))
    (hlasting : Lasting cs) (hrun : performAll levels cs start = .ok e) (q : PlayerId) :
    (e.sessions.shownTo q).Sublist (e.world.output q) := by
  induction cs generalizing start with
  | nil =>
    cases hrun
    exact hstart q
  | cons c rest ih =>
    obtain ⟨e₁, answer, hstep, hrest⟩ := exists_of_performAll_cons hrun
    have hfirst : Lasting [c] := fun f hf => hlasting f (by simp_all)
    exact ih (shown_of_perform hfirst hstart hstep)
      (fun f hf => hlasting f (List.mem_cons_of_mem _ hf)) hrest

end Engine

end Questbook
