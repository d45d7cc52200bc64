/-
Questbook/Proofs/Engine/Kills.lean

Kills are counted exactly.

`Hunt.Goes` tells of a hunt that goes on while commands are carried out: after each of them as many
are left as have not been killed by then, and where nothing was left after a kill, a condition was
not met.  In between content runs, for this objective and for others, and it may start, cancel and
complete whatever it likes.  So the hunt goes on until it is completed by such a kill, or until it
is disturbed.

Main result: `kills_counted`, with `Hunt.Goes.goes_or_ends` for one command.
-/
import Questbook.Proofs.Package.Evaluate
import Questbook.Proofs.Engine.Hunts

namespace Questbook

open Engine

namespace Hunt

/-! ### Hunts that go on -/

variable (h : Hunt) (levels : Nat) (start : Engine) (before cs : List Command)

/-- All that has been carried out when the hunt has begun after `before`, and then `done` has
been. -/
def course (before done : List Command) : List Command :=
  before ++ .request h.player (.startObjective h.objective) :: done

/-- After the run of `before` the player starts the objective, which begins the hunt; and while more
commands are carried out it goes on: it stands as the kills have it, and was thwarted where nothing
was left to kill after one of them. -/
inductive Goes : List Command → Engine → Prop
  | begins {e₀ e : Engine} (hbefore : performAll levels before start = .ok e₀)
      (hepoch : h.epoch = e₀.progress.nextEpoch)
      (hstep : e₀.perform levels (.request h.player (.startObjective h.objective)) =
        .ok (.ok (), e))
      (hstands : h.Stands 0 e) : Goes [] e
  | goesOn {done : List Command} {c : Command} {answer : c.Answer} {e e' : Engine}
      (hgoes : Goes done e) (hstep : e.perform levels c = .ok (answer, e'))
      (hstands : h.Stands (h.kills (done ++ [c])) e')
      (hthwarted : h.counts c = true → h.amount ≤ h.kills (done ++ [c]) →
        h.Thwarted levels start (h.course before done) e c) : Goes (done ++ [c]) e'

/-- The kill by which the hunt is completed: one that counts, after which nothing is left to kill,
and with all conditions met. -/
structure Completes (done : List Command) (e : Engine) (c : Command) : Prop where
  counts : h.counts c = true
  enough : h.amount ≤ h.kills (done ++ [c])
  earned : Earned levels start (h.course before done) e c
    ⟨h.player, h.objective, h.epoch, .ended .completed⟩

/-- In `e`, after the run of `cs`, a command is carried out that ends in `e'`, and in its course the
hunt is disturbed. -/
inductive Disturbed (e : Engine) : Command → Engine → Prop
  | cancelled {c : Command} {e' : Engine}
      (hnew : ⟨h.player, h.objective, h.epoch, .ended .cancelled⟩ ∉ e.journal)
      (hx : ⟨h.player, h.objective, h.epoch, .ended .cancelled⟩ ∈ e'.journal) :
      Disturbed e c e'
  /-- Content completes the objective on request, while an event is dispatched or on a tick. -/
  | requested {c : Command} {e' : Engine}
      (h : Requested levels start cs e c (contentDemands cs)
        ⟨h.player, h.objective, h.epoch, .ended .completed⟩) : Disturbed e c e'
  /-- The host or content completes the objective on request, while neither is the case. -/
  | asked {c : Command} {e' : Engine} (htick : c ≠ .tick) (hdispatch : ∀ event, c ≠ .dispatch event)
      (hasked : .request (.completeObjective h.objective) ∈ contentDemands cs ∨
        ∃ q, c = .request q (.completeObjective h.objective))
      (hnew : ⟨h.player, h.objective, h.epoch, .ended .completed⟩ ∉ e.journal)
      (hx : ⟨h.player, h.objective, h.epoch, .ended .completed⟩ ∈ e'.journal) :
      Disturbed e c e'
  /-- Packages are put in force in which the objective is not the same. -/
  | reloaded {packages : Packages} {e' : Engine}
      (hchanged : packages.get .objective h.objective ≠ .ok h.definition) :
      Disturbed e (.replacePackages packages) e'
  /-- Progress of the same objective is read back from storage. -/
  | restored {records : List ProgressRecord} {r : ProgressRecord} {e' : Engine} (hr : r ∈ records)
      (hplayer : r.player = h.player) (hobjective : r.objective = h.objective) :
      Disturbed e (.restore records) e'

/-- In the run of `all` after the hunt has begun, which leads to `e`, it goes on up to a command by
which it is completed, and then it is active no more; or else by which it is disturbed. -/
def Ends (all : List Command) (e : Engine) : Prop :=
  ∃ done c rest e₁ answer e₂, all = done ++ c :: rest ∧ h.Goes levels start before done e₁ ∧
    e₁.perform levels c = .ok (answer, e₂) ∧ performAll levels rest e₂ = .ok e ∧
    (h.Completes levels start before done e₁ c ∧
        (∀ a, e.progress.find? h.player h.objective = some a → a.epoch ≠ h.epoch) ∨
      h.Disturbed levels start (h.course before done) e₁ c e₂)

variable {h levels start before cs} {e e' e₁ e₂ : Engine} {c : Command}
  {done more rest : List Command} {k : Nat} {a : Active}

/-! ### One command -/

/-- As long as the hunt is active and its objective is the same, it stands as the kills have it. -/
theorem stands_of_active (hissued : e.Issued) (hstands : h.Stands k e)
    {answer : c.Answer} (hstep : e.perform levels c = .ok (answer, e'))
    (hdefined : e'.packages.get .objective h.objective = .ok h.definition)
    (hactive : e'.progress.find? h.player h.objective = some a) (hepoch : a.epoch = h.epoch) :
    h.Stands (k + if h.counts c then 1 else 0) e' ∧
      (h.counts c = true → h.amount ≤ k + 1 → h.Thwarted levels start cs e c) := by
  by_cases hown : ∃ event, c = .dispatch event ∧ event.player = h.player
  · obtain ⟨event, rfl, hplayer⟩ := hown
    obtain ⟨hdata, hthwarted⟩ := dispatch_counts hissued hstands hplayer hstep hactive hepoch
    exact ⟨stands hdefined hactive hepoch hdata, hthwarted⟩
  · have hc : ∀ event, c = .dispatch event → event.player ≠ h.player :=
      fun event hevent hplayer => hown ⟨event, hevent, hplayer⟩
    obtain ⟨b, hb, hbepoch, hbdata⟩ := hstands.active
    obtain ⟨K, hleaves⟩ := perform_leaves hc (hbepoch ▸ hissued _ _ b hb) hstep
    cases hb.symm.trans (hleaves.kept a hactive hepoch)
    rw [counts_eq_false hc]
    exact ⟨stands hdefined hactive hepoch hbdata, nofun⟩

namespace Goes

theorem run (hgoes : h.Goes levels start before done e) :
    performAll levels (h.course before done) start = .ok e := by
  induction hgoes with
  | begins hbefore _ hstep _ => exact performAll_append_singleton hbefore hstep
  | @goesOn done c _ _ _ _ hstep _ _ ih =>
    have hcourse : h.course before (done ++ [c]) = h.course before done ++ [c] := by simp [course]
    rw [hcourse]
    exact performAll_append_singleton ih hstep

theorem stands (hgoes : h.Goes levels start before done e) : h.Stands (h.kills done) e := by
  cases hgoes with
  | begins _ _ _ hstands => exact hstands
  | goesOn _ _ hstands _ => exact hstands

/-- The epoch of a hunt is the next one when it begins. -/
theorem exists_start (hgoes : h.Goes levels start before done e) :
    ∃ e₀, performAll levels before start = .ok e₀ ∧ h.epoch = e₀.progress.nextEpoch := by
  induction hgoes with
  | begins hbefore hepoch _ _ => exact ⟨_, hbefore, hepoch⟩
  | goesOn _ _ _ _ ih => exact ih

/-- What goes on has gone on before. -/
theorem exists_of_concat (hgoes : h.Goes levels start before (done ++ [c]) e) :
    ∃ e₁, h.Goes levels start before done e₁ := by
  generalize hall : done ++ [c] = all at hgoes
  cases hgoes with
  | begins => simp at hall
  | goesOn hgoes _ _ _ =>
    obtain ⟨rfl, -⟩ := List.append_inj' hall rfl
    exact ⟨_, hgoes⟩

theorem exists_of_append (hgoes : h.Goes levels start before (done ++ more) e) :
    ∃ e₁, h.Goes levels start before done e₁ := by
  induction more using List.reverseRecOn generalizing e with
  | nil => exact ⟨e, by simpa using hgoes⟩
  | append_singleton more c ih =>
    rw [← List.append_assoc] at hgoes
    obtain ⟨e₁, hgoes₁⟩ := hgoes.exists_of_concat
    exact ih hgoes₁

/-- No check that waits is one of the hunt: before it began there was no such epoch, and since then
its goal has put nothing off. -/
theorem task_ne (hgoes : h.Goes levels start before done e) (hcharted : start.Charted)
    (hwaiting : start.agenda.waiting = []) {tasks : List (Appointment Task)} {s : Appointment Task}
    (hcarries : CarriesOut levels start (h.course before done) tasks s e₁ e₂) {check : Recheck} :
    s.task ≠ .recheck h.player h.objective h.epoch check := by
  intro htask
  obtain ⟨before', event, after, e', -, hdeferred⟩ := hcarries.deferred hwaiting htask
  rcases List.append_eq_append_iff.1 hdeferred.split with ⟨m, hbefore', hm⟩ | ⟨m, hbefore, hm⟩
  · cases m with
    | nil => cases hm
    | cons c m =>
      obtain ⟨rfl, rfl⟩ := List.cons.inj hm
      obtain ⟨e'', hgoes'⟩ := hgoes.exists_of_append
      have hrun := hgoes'.run
      rw [course, ← hbefore', hdeferred.before] at hrun
      cases hrun
      exact not_putsOff hgoes'.stands.defined hdeferred.puts
  · cases m with
    | nil => cases hm
    | cons c m =>
      obtain ⟨rfl, -⟩ := List.cons.inj hm
      obtain ⟨e₀, hrun, hepoch⟩ := hgoes.exists_start
      rw [hbefore, performAll_append, hdeferred.before] at hrun
      obtain ⟨e₃, _, hdispatch, hrest⟩ := exists_of_performAll_cons hrun
      have hlt := hdeferred.epoch_lt hcharted hdispatch
      have hle : e₃.progress.nextEpoch ≤ e₀.progress.nextEpoch :=
        (performAll_moves hrest).nextEpoch_le
      exact absurd (hlt.trans_le hle) (Nat.not_lt_of_ge hepoch.ge)

/-- So on a tick the hunt is not completed but on request. -/
theorem not_earned_tick (hgoes : h.Goes levels start before done e) (hcharted : start.Charted)
    (hwaiting : start.agenda.waiting = []) :
    ¬ Earned levels start (h.course before done) e .tick
      ⟨h.player, h.objective, h.epoch, .ended .completed⟩ := by
  rintro ⟨a, definition, data, e₁, hreaches, hplayer, hobjective, hepoch, -⟩
  cases hreaches with
  | check hcarries htask _ _ _ _ =>
    dsimp only at hplayer hobjective hepoch
    rw [← hplayer, ← hobjective, ← hepoch] at htask
    exact hgoes.task_ne hcharted hwaiting hcarries htask

end Goes

/-! ### Runs -/

section

variable {registry : Registry} {integrations : Integrations} {world : World} {archived : Bool}
  {screen : String} {clock : Calendar.Timestamp} {dice : Dice}

/-- What is completed while content runs is completed by a kill, or on request. -/
theorem Goes.completed
    (hgoes : h.Goes levels (fresh registry integrations world archived screen clock dice) before
      done e)
    (htitled : ∀ packages, .replacePackages packages ∈ h.course before done → packages.Titled)
    (hmode : c.mode = .play) {answer : c.Answer} (hstep : e.perform levels c = .ok (answer, e'))
    (hnew : ⟨h.player, h.objective, h.epoch, .ended .completed⟩ ∉ e.journal)
    (hx : ⟨h.player, h.objective, h.epoch, .ended .completed⟩ ∈ e'.journal) :
    h.Completes levels (fresh registry integrations world archived screen clock dice) before done e
      c ∨
    h.Disturbed levels (fresh registry integrations world archived screen clock dice)
      (h.course before done) e c e' := by
  have hrun := hgoes.run
  have htitle := titled_of_performAll htitled hrun
  obtain ⟨hK, he⟩ := authored_contentDemands Set.Subset.rfl hrun
  by_cases htick : c = .tick
  · subst htick
    rcases tick_written hrun he hK.within htitle hstep rfl hnew hx with hearned | hrequested
    · exact absurd hearned (hgoes.not_earned_tick (charted_fresh _ _ _ _ _ _ _) rfl)
    · exact .inr (.requested hrequested)
  by_cases hdispatch : ∃ event, c = .dispatch event
  · obtain ⟨event, rfl⟩ := hdispatch
    rcases dispatch_written he hK.within htitle hstep rfl hnew hx with hearned | hrequested
    · obtain ⟨hcounts, henough⟩ :=
        counts_of_earned (charted_of_performAll hrun).issued hgoes.stands hearned
      exact .inl ⟨hcounts, by rw [kills_concat, if_pos hcounts]; exact henough, hearned⟩
    · exact .inr (.requested hrequested)
  · -- What is asked for is asked for by content, or by the command itself.
    have hdispatch : ∀ event, c ≠ .dispatch event := fun event hevent => hdispatch ⟨event, hevent⟩
    let asked : Set Demand := { d | ∃ q r, c = .request q r ∧ d = .request r }
    obtain ⟨hK, he⟩ := authored_contentDemands (Set.subset_union_left (t := asked)) hrun
    refine .inr (.asked htick hdispatch ?_ hnew hx)
    rcases asked_of_perform he hK.within hmode htick hdispatch
      (fun q r hr => .inr ⟨q, r, hr, rfl⟩) hstep rfl hnew hx with hcontent | ⟨q, r, hr, heq⟩
    · exact .inl hcontent
    · cases heq
      exact .inr ⟨q, hr⟩

/-- A hunt that is not active any more has been completed by a kill, or it is disturbed. -/
theorem Goes.ends_of_inactive
    (hgoes : h.Goes levels (fresh registry integrations world archived screen clock dice) before
      done e)
    (htitled : ∀ packages, .replacePackages packages ∈ h.course before done → packages.Titled)
    (hsame : ∀ packages, c = .replacePackages packages →
      packages.get .objective h.objective = .ok h.definition)
    {answer : c.Answer} (hstep : e.perform levels c = .ok (answer, e'))
    (hover : ∀ a, e'.progress.find? h.player h.objective = some a → a.epoch ≠ h.epoch) :
    h.Completes levels (fresh registry integrations world archived screen clock dice) before done e
      c ∧
      ⟨h.player, h.objective, h.epoch, .ended .completed⟩ ∈ e'.journal ∨
    h.Disturbed levels (fresh registry integrations world archived screen clock dice)
      (h.course before done) e c e' := by
  have hcharted := charted_of_performAll hgoes.run
  obtain ⟨b, hb, hbepoch, hbdata⟩ := hgoes.stands.active
  rw [← hbepoch] at hover
  rcases c.mode_cases with ⟨records, rfl⟩ | ⟨packages, rfl⟩ | ⟨hmode, hsetting⟩
  · by_cases hrecord : ∃ r ∈ records, r.player = h.player ∧ r.objective = h.objective
    · obtain ⟨r, hr, hplayer, hobjective⟩ := hrecord
      exact .inr (.restored hr hplayer hobjective)
    · have hkept := (find?_of_restore (fun r hr hkey => hrecord ⟨r, hr, hkey⟩) hstep).trans hb
      exact absurd rfl (hover b hkept)
  · have haccepts : h.definition.goal.accepts b.data = true :=
      hbdata ▸ accepts_killData ((Nat.sub_le _ _).trans h.amount_le)
    exact absurd rfl (hover b (find?_of_reload hstep (hsame packages rfl) haccepts hb))
  · obtain ⟨how, hnew, hx⟩ := hcharted.exists_ended (perform_moves hstep) hb hover
    rw [hbepoch] at hnew hx
    have hsteps : Steps .play e e' := by
      have hsteps := perform_steps hstep
      rwa [hmode, hsetting] at hsteps
    rcases hsteps.ending_of_play hnew hx rfl with rfl | rfl
    · exact .inr (.cancelled hnew hx)
    · exact (hgoes.completed htitled hmode hstep hnew hx).imp_left fun hcompletes =>
        ⟨hcompletes, hx⟩

/-- **One command.**  The hunt goes on; or it is completed by a kill, or disturbed. -/
theorem Goes.goes_or_ends
    (hgoes : h.Goes levels (fresh registry integrations world archived screen clock dice) before
      done e)
    (htitled : ∀ packages, .replacePackages packages ∈ h.course before done → packages.Titled)
    {answer : c.Answer} (hstep : e.perform levels c = .ok (answer, e')) :
    h.Goes levels (fresh registry integrations world archived screen clock dice) before
      (done ++ [c]) e' ∨
    h.Completes levels (fresh registry integrations world archived screen clock dice) before done e
      c ∧
      ⟨h.player, h.objective, h.epoch, .ended .completed⟩ ∈ e'.journal ∨
    h.Disturbed levels (fresh registry integrations world archived screen clock dice)
      (h.course before done) e c e' := by
  have hstands := hgoes.stands
  by_cases hreload : ∃ packages, c = .replacePackages packages ∧
      packages.get .objective h.objective ≠ .ok h.definition
  · obtain ⟨packages, rfl, hchanged⟩ := hreload
    exact .inr (.inr (.reloaded hchanged))
  have hsame (packages : Packages) (hc : c = .replacePackages packages) :
      packages.get .objective h.objective = .ok h.definition :=
    by_contra fun hchanged => hreload ⟨packages, hc, hchanged⟩
  by_cases hactive : ∃ a, e'.progress.find? h.player h.objective = some a ∧ a.epoch = h.epoch
  · obtain ⟨a, ha, hepoch⟩ := hactive
    have hdefined : e'.packages.get .objective h.objective = .ok h.definition := by
      rw [(perform_steps hstep).packages_eq]
      rcases c.mode_cases with ⟨records, rfl⟩ | ⟨packages, rfl⟩ | ⟨-, hsetting⟩
      · exact hstands.defined
      · exact hsame packages rfl
      · rw [hsetting]
        exact hstands.defined
    obtain ⟨hstands', hthwarted⟩ :=
      stands_of_active (charted_of_performAll hgoes.run).issued hstands
      hstep hdefined ha hepoch
    rw [← kills_concat] at hstands'
    refine .inl (.goesOn hgoes hstep hstands' fun hcounts henough => ?_)
    rw [kills_concat, if_pos hcounts] at henough
    exact hthwarted hcounts henough
  · have hover : ∀ a, e'.progress.find? h.player h.objective = some a → a.epoch ≠ h.epoch :=
      fun a ha hepoch => hactive ⟨a, ha, hepoch⟩
    exact .inr (hgoes.ends_of_inactive htitled hsame hstep hover)

/-- **Runs.**  While commands are carried out the hunt goes on, or it ends by one of them. -/
theorem Goes.goes_or_ends_of_run
    (hgoes : h.Goes levels (fresh registry integrations world archived screen clock dice) before
      done e)
    (htitled : ∀ packages, .replacePackages packages ∈ h.course before (done ++ rest) →
      packages.Titled)
    (hrun : performAll levels rest e = .ok e') :
    h.Goes levels (fresh registry integrations world archived screen clock dice) before
      (done ++ rest) e' ∨
    h.Ends levels (fresh registry integrations world archived screen clock dice) before
      (done ++ rest) e' := by
  -- By induction on what is still to be carried out, wherever the hunt has got by then.
  induction rest generalizing done e with
  | nil =>
    cases hrun
    rw [List.append_nil]
    exact .inl hgoes
  | cons c rest ih =>
    obtain ⟨e₁, answer, hstep, hrest⟩ := exists_of_performAll_cons hrun
    have htitled' : ∀ packages, .replacePackages packages ∈ h.course before done →
        packages.Titled := by
      intro packages hmem
      refine htitled packages ?_
      simp only [course, List.mem_append, List.mem_cons] at hmem ⊢
      tauto
    rcases hgoes.goes_or_ends htitled' hstep with hgoes' | ⟨hcompletes, hx⟩ | hdisturbed
    · rw [List.append_cons] at htitled ⊢
      exact ih hgoes' htitled hrest
    · refine .inr ⟨done, c, rest, e, answer, e₁, rfl, hgoes, hstep, hrest, .inl ⟨hcompletes, ?_⟩⟩
      have hcharted := (charted_of_performAll hgoes.run).of_moves (perform_moves hstep)
      obtain ⟨-, -, hnever⟩ := hcharted.sealed hrest (Journal.times_pos hx)
      exact hnever _ _
    · exact .inr ⟨done, c, rest, e, answer, e₁, rfl, hgoes, hstep, hrest, .inr hdisturbed⟩

end

end Hunt

/-- **Kills are counted exactly.**

Where an objective is compiled of a line with the keyword for killing, its player starts it in a
state that some run has led to, and any commands are carried out after that: whatever happens to
others meanwhile and to other objectives, and whatever content there is,

* after each command `left` is what the number of the line exceeds the kills by, `amount` is how
  many they are, but not more than that number, and `total` is the number; a kill is the dispatch of
  one by the player of somebody whom the line names, in whatever letter case;
* the objective is active under the epoch of that start, and wherever nothing was left after a kill,
  a condition that the line lists was false or failed then;
* that goes on until such a kill completes it, all its conditions having been met, so that it is not
  active under that epoch any more; or until it is disturbed: cancelled, completed on request, read
  back from storage, or defined otherwise by packages that are put in force.

All packages have to define objectives under their own identifiers, as those do that are
compiled. -/
theorem kills_counted {registry : Registry} {sources : Sources} {integrations : Integrations}
    {world : World} {archived : Bool} {screen : String} {clock : Calendar.Timestamp} {dice : Dice}
    {levels : Nat} {before : List Command} {e₀ e₁ : Engine} {p : PlayerId} {o : ObjectId}
    {raw : String} {line : Line} (hkill : registry.goals.find? "mobkill" = some Vocabulary.kill)
    (hraw : sources.line? .objective o = some raw) (hline : Line.parse o raw = .ok line)
    (hkeyword : line.keyword = "mobkill")
    (htitled : ∀ packages, .replacePackages packages ∈ before → packages.Titled)
    (hbefore : performAll levels before
      (fresh registry integrations world archived screen clock dice) = .ok e₀)
    (hpackages : e₀.packages = Packages.compile registry sources)
    (hstart : e₀.perform levels (.request p (.startObjective o)) = .ok (.ok (), e₁)) :
    ∃ h : Hunt, h.player = p ∧ h.objective = o ∧ h.epoch = e₀.progress.nextEpoch ∧
      (∃ conditions line₁ events line₂ line₃ line₄,
        line.read (Line.optionalList "conditions") = (.ok conditions, line₁) ∧
        line₁.read (Line.optionalList "events") = (.ok events, line₂) ∧
        line₂.read Line.nextList = (.ok h.names, line₃) ∧
        line₃.read Line.nextPositive = (.ok h.amount, line₄) ∧ 0 < h.amount ∧
        List.Forall₂ (fun name c =>
          ((Packages.compile registry sources).resolve name .condition o.package).map
            Resolved.conditionRef = .ok c) conditions h.definition.conditions ∧
        List.Forall₂ (fun name e => ∃ d,
          (Packages.compile registry sources).resolve name .event o.package = .ok d ∧
            e = ⟨d.id, d.target⟩) events h.definition.events) ∧
      ∀ after e, (∀ packages, .replacePackages packages ∈ after → packages.Titled) →
        performAll levels after e₁ = .ok e →
          h.Goes levels (fresh registry integrations world archived screen clock dice) before after
            e ∨
          h.Ends levels (fresh registry integrations world archived screen clock dice) before after
            e := by
  obtain ⟨definition, hdefined, rfl⟩ := Objectives.start_run hstart
  rw [hpackages] at hdefined
  obtain ⟨conditions, line₁, events, line₂, names, line₃, amount, line₄, hread, hread₁, hnames,
    hamount, hconditions, hevents, hgoal⟩ := kill_written hkill hraw hline hkeyword hdefined
  let h : Hunt :=
    ⟨p, o, e₀.progress.nextEpoch, names, amount, definition, compile_id hdefined, hgoal,
      Vocabulary.nextPositive_le hamount⟩
  refine ⟨h, rfl, rfl, rfl, ⟨conditions, line₁, events, line₂, line₃, line₄, hread, hread₁, hnames,
    hamount, Vocabulary.nextPositive_pos hamount, hconditions, hevents⟩, ?_⟩
  intro after e htitled' hafter
  -- The hunt begins with nobody killed.
  have hbegun :
      (e₀.begun p o definition.goal.initial).packages.get .objective o = .ok definition := by
    rw [packages_begun, hpackages]
    exact hdefined
  have hactive : (e₀.begun p o definition.goal.initial).progress.find? p o =
      some ⟨definition.goal.initial, e₀.progress.nextEpoch, e₀.clock⟩ :=
    (e₀.find?_enter p p o o _ e₀.clock).trans (if_pos ⟨rfl, rfl⟩)
  have hdata : definition.goal.initial = killData (amount - 0) := by
    rw [hgoal]
    rfl
  have hstands : h.Stands 0 (e₀.begun p o definition.goal.initial) :=
    Hunt.stands hbegun hactive rfl hdata
  have hgoes : h.Goes levels (fresh registry integrations world archived screen clock dice) before
      [] (e₀.begun p o definition.goal.initial) := .begins hbefore rfl hstart hstands
  refine hgoes.goes_or_ends_of_run (fun packages hmem => ?_) hafter
  simp only [Hunt.course, List.nil_append, List.mem_append, List.mem_cons, reduceCtorEq,
    false_or] at hmem
  exact hmem.elim (htitled packages) (htitled' packages)

/-! ### Wilds -/

/-- Wolves and bears, of whom three are to be killed. -/
def wilds : Sources where
  packages := (∅ : Table String PackageSource).insert "forest" { PackageSource.empty with
    objectives := .ofList [("den", "mobkill Wolf,bear 3")] }

/-- What the built-in keywords make of the wilds. -/
def compiledWilds : Packages := Packages.compile (Vocabulary.registry ⟨true, true⟩) wilds

theorem compiledWilds_eq :
    compiledWilds = compileWithin (Vocabulary.registry ⟨true, true⟩) wilds 2 :=
  (compileWithin_eq (show 1 < 2 by decide) (by decide)).symm

/-- An engine with the wilds in force is asked to start its objective, and then put to a test. -/
def trial (test : Engine → Bool) : Bool :=
  passes (performAll 1 [.replacePackages compiledWilds] idle) fun e =>
    passes (e.perform 1 (.request ⟨"ann"⟩ (.startObjective ⟨"forest", "den"⟩))) fun r =>
      match r.1 with
      | .ok () => test r.2
      | .error _ => false

theorem exists_of_trial {test : Engine → Bool} (h : trial test = true) : ∃ e₀ e₁ : Engine,
    performAll 1 [.replacePackages compiledWilds] idle = .ok e₀ ∧
    e₀.perform 1 (.request ⟨"ann"⟩ (.startObjective ⟨"forest", "den"⟩)) = .ok (.ok (), e₁) ∧
    test e₁ = true := by
  obtain ⟨e₀, hbefore, h⟩ := exists_of_passes h
  obtain ⟨⟨answer, e₁⟩, hstart, h⟩ := exists_of_passes h
  cases answer with
  | error err => cases h
  | ok answer => exact ⟨e₀, e₁, hbefore, hstart, h⟩

/-- The objective of the wilds is started, and a wolf is killed: two are left. -/
theorem kills_counted_of_wilds : ∃ (h : Hunt) (e₀ e₁ e : Engine),
    performAll 1 [.replacePackages compiledWilds] idle = .ok e₀ ∧
    e₀.perform 1 (.request ⟨"ann"⟩ (.startObjective ⟨"forest", "den"⟩)) = .ok (.ok (), e₁) ∧
    performAll 1 [.dispatch (.entityKilled ⟨"ann"⟩ "WOLF")] e₁ = .ok e ∧
    h.names = ["Wolf", "bear"] ∧ h.amount = 3 ∧
    h.kills [.dispatch (.entityKilled ⟨"ann"⟩ "WOLF")] = 1 ∧
    e.property? ⟨"ann"⟩ ⟨"forest", "den"⟩ "left" = some "2" ∧
    (h.Goes 1 idle [.replacePackages compiledWilds] [.dispatch (.entityKilled ⟨"ann"⟩ "WOLF")] e ∨
      h.Ends 1 idle [.replacePackages compiledWilds]
        [.dispatch (.entityKilled ⟨"ann"⟩ "WOLF")] e) := by
  have h : trial (fun e => e.progress.held? ⟨"ann"⟩ == some 0 &&
      (e.progress.activeOf ⟨"ann"⟩).keys == [⟨"forest", "den"⟩] &&
      passes ((Objectives.offerEach (nested 1) e.packages (.entityKilled ⟨"ann"⟩ "WOLF") ⟨"ann"⟩ 0
        [⟨"forest", "den"⟩]).run e) fun r =>
          r.2.property? ⟨"ann"⟩ ⟨"forest", "den"⟩ "left" == some "2") = true := by
    rw [trial, compiledWilds_eq]
    decide +kernel
  obtain ⟨e₀, e₁, hbefore, hstart, h⟩ := exists_of_trial h
  simp only [Bool.and_eq_true, beq_iff_eq] at h
  obtain ⟨⟨hheld, hkeys⟩, h⟩ := h
  obtain ⟨⟨_, e⟩, hoffered, hleft⟩ := exists_of_passes h
  -- Sorting is no computation that `decide` can follow, so that the turns are run by themselves.
  have hids : e₁.progress.ids ⟨"ann"⟩ = [⟨"forest", "den"⟩] := by
    rw [Slots.ids, hkeys]
    exact List.mergeSort_singleton _
  have hnow : performAll 1 [] e₁ = .ok e₁ := rfl
  have hdispatch : performAll 1 [.dispatch (.entityKilled ⟨"ann"⟩ "WOLF")] e₁ = .ok e :=
    performAll_append_singleton hnow ((Objectives.dispatch_run 0 hheld hids).trans hoffered)
  let line : Line := ⟨⟨"forest", "den"⟩, "mobkill Wolf,bear 3", "mobkill",
    [⟨"Wolf,bear", false⟩, ⟨"3", false⟩], 0⟩
  have hline : Line.parse ⟨"forest", "den"⟩ "mobkill Wolf,bear 3" = .ok line := by decide +kernel
  have hraw : wilds.line? .objective ⟨"forest", "den"⟩ = some "mobkill Wolf,bear 3" := rfl
  have hpackages : e₀.packages = compiledWilds := by
    cases hbefore
    rfl
  obtain ⟨h, hplayer, -, -, ⟨conditions, line₁, events, line₂, line₃, line₄, hread, hread₁, hnames,
    hamount, -, -, -⟩, hruns⟩ := kills_counted rfl hraw hline rfl
      (fun packages hmem => by
        obtain rfl : packages = compiledWilds := by simpa using hmem
        exact titled_compile _ _) hbefore hpackages hstart
  have hlisted : (((line.read (Line.optionalList "conditions")).2.read
      (Line.optionalList "events")).2.read Line.nextList).1 = .ok ["Wolf", "bear"] := by
    decide +kernel
  have hcounted : ((((line.read (Line.optionalList "conditions")).2.read
      (Line.optionalList "events")).2.read Line.nextList).2.read Line.nextPositive).1 = .ok 3 := by
    decide +kernel
  rw [hread, hread₁, hnames] at hlisted hcounted
  rw [hamount] at hcounted
  obtain ⟨hnamed, hthree⟩ : h.names = ["Wolf", "bear"] ∧ h.amount = 3 :=
    ⟨Except.ok.inj hlisted, Except.ok.inj hcounted⟩
  have hkills : h.kills [.dispatch (.entityKilled ⟨"ann"⟩ "WOLF")] = 1 := by
    rw [Hunt.kills, List.countP_singleton, Hunt.counts, hplayer, hnamed]
    decide +kernel
  exact ⟨h, e₀, e₁, e, hbefore, hstart, hdispatch, hnamed, hthree, hkills, beq_iff_eq.1 hleft,
    hruns _ e (by simp) hdispatch⟩

/-- **Kills are forgotten by what is read back.**  The objective of the wilds is started, and a
record of it is read back that has one left.  Nobody has been killed since the start, and one is
left. -/
theorem left_of_restored : ∃ e₀ e₁ e : Engine,
    performAll 1 [.replacePackages compiledWilds] idle = .ok e₀ ∧
    e₀.perform 1 (.request ⟨"ann"⟩ (.startObjective ⟨"forest", "den"⟩)) = .ok (.ok (), e₁) ∧
    e₁.property? ⟨"ann"⟩ ⟨"forest", "den"⟩ "left" = some "3" ∧
    performAll 1 [.restore [⟨⟨"ann"⟩, ⟨"forest", "den"⟩, killData 1, ⟨0, 0⟩⟩]] e₁ = .ok e ∧
    e.property? ⟨"ann"⟩ ⟨"forest", "den"⟩ "left" = some "1" := by
  have h : trial (fun e => e.property? ⟨"ann"⟩ ⟨"forest", "den"⟩ "left" == some "3" &&
      passes (performAll 1 [.restore [⟨⟨"ann"⟩, ⟨"forest", "den"⟩, killData 1, ⟨0, 0⟩⟩]] e)
        fun e => e.property? ⟨"ann"⟩ ⟨"forest", "den"⟩ "left" == some "1") = true := by
    rw [trial, compiledWilds_eq]
    decide +kernel
  obtain ⟨e₀, e₁, hbefore, hstart, h⟩ := exists_of_trial h
  simp only [Bool.and_eq_true, beq_iff_eq] at h
  obtain ⟨hleft, h⟩ := h
  obtain ⟨e, hrestored, hleft'⟩ := exists_of_passes h
  exact ⟨e₀, e₁, e, hbefore, hstart, hleft, hrestored, beq_iff_eq.1 hleft'⟩

end Questbook
