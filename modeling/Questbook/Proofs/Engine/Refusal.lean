/-
Questbook/Proofs/Engine/Refusal.lean

What a refused request leaves behind: nothing.

A request that is answered with an error is refused for one of the reasons of `Refusal`, each of
them told by the state that the request found.  Whoever has such a reason is refused, and the state
is the one before, down to the journal and the frames (`Refusal.run`).  All but one of the refusals
are seen to before anything is changed.  The one is cancelling what is not active: it takes the slot
of its player first and closes it when it is done, which is seen only if the slot was empty.
Between commands no slot is.
-/
import Questbook.Proofs.Engine.Tidy

namespace Questbook

variable {n : Nested} {p : PlayerId} {e e' : Engine} {r : Request} {answer : r.Answer}

/-! ### Reasons -/

/-- Whether an answer is an error.  Only requests that start, step or end something give one. -/
def Request.refused : (r : Request) → r.Answer → Bool
  | startConversation _, answer => !Except.isOk (answer : Except TalkError TalkState)
  | selectOption _, answer => !Except.isOk (answer : Except TalkError TalkState)
  | navigate _, answer => !Except.isOk (answer : Except TalkError Bool)
  | startObjective _, answer => !Except.isOk (answer : Except ProgressError Unit)
  | cancelObjective _, answer => !Except.isOk (answer : Except ProgressError Unit)
  | completeObjective _, answer => !Except.isOk (answer : Except ProgressError Unit)
  | talkState, _ | endConversation, _ | disconnect, _ | note _, _ => false

/-- The reasons for which an engine refuses a request of a player, each with the error it gives. -/
inductive Refusal (e : Engine) (p : PlayerId) : (r : Request) → r.Answer → Prop
  | unknownTalk {id : ObjectId} {err : NotFound}
      (hget : e.packages.get .conversation id = .error err) :
      Refusal e p (.startConversation id) (.error (.notFound err) : Except TalkError TalkState)
  | unknownScreen {id : ObjectId} {talk : Conversation}
      (hget : e.packages.get .conversation id = .ok talk)
      (hscreen : e.registry.screen? (talk.screen.getD e.defaultScreen) = none) :
      Refusal e p (.startConversation id)
        (.error (.unknownScreen (talk.screen.getD e.defaultScreen)) : Except TalkError TalkState)
  | talking {id : ObjectId} {talk : Conversation} {style : Screen.Style} {session : Session}
      (hget : e.packages.get .conversation id = .ok talk)
      (hscreen : e.registry.screen? (talk.screen.getD e.defaultScreen) = some style)
      (hsession : e.sessions.find? p = some session) :
      Refusal e p (.startConversation id)
        (.error (.alreadyActive p) : Except TalkError TalkState)
  | nothingToSelect {index : Nat} (hsession : e.sessions.find? p = none) :
      Refusal e p (.selectOption index) (.error (.noSession p) : Except TalkError TalkState)
  | busy {index : Nat} {session : Session} (hsession : e.sessions.find? p = some session)
      (hphase : session.phase = .resolving) :
      Refusal e p (.selectOption index) (.error (.busy p) : Except TalkError TalkState)
  | notOffered {index : Nat} {session : Session} {text : String}
      {offered : List (String × String)} (hsession : e.sessions.find? p = some session)
      (hphase : session.phase = .selecting text offered) (hindex : offered.length ≤ index) :
      Refusal e p (.selectOption index)
        (.error (.invalidSelection index offered.length) : Except TalkError TalkState)
  | nothingToNavigate {command : String} (hsession : e.sessions.find? p = none) :
      Refusal e p (.navigate command) (.error (.noSession p) : Except TalkError Bool)
  | unknownStart {id : ObjectId} {err : NotFound}
      (hget : e.packages.get .objective id = .error err) :
      Refusal e p (.startObjective id) (.error (.notFound err) : Except ProgressError Unit)
  | active {id : ObjectId} {definition : Objective}
      (hget : e.packages.get .objective id = .ok definition)
      (hactive : e.progress.isActive p id = true) :
      Refusal e p (.startObjective id) (.error (.alreadyActive p id) : Except ProgressError Unit)
  | nothingToCancel {id : ObjectId} (hactive : e.progress.find? p id = none) :
      Refusal e p (.cancelObjective id) (.error (.notActive p id) : Except ProgressError Unit)
  | unknownComplete {id : ObjectId} {err : NotFound}
      (hget : e.packages.get .objective id = .error err) :
      Refusal e p (.completeObjective id) (.error (.notFound err) : Except ProgressError Unit)
  | nothingToComplete {id : ObjectId} {definition : Objective}
      (hget : e.packages.get .objective id = .ok definition)
      (hactive : e.progress.find? p id = none) :
      Refusal e p (.completeObjective id) (.error (.notActive p id) : Except ProgressError Unit)

/-! ### Every error has a reason -/

/-- What holds of every answer is ensured by any step. -/
theorem Act.ensures_of_forall {α : Type} {a : Act α} {R : α → Engine → Prop}
    (h : ∀ x e', R x e') : a.Ensures e (fun _ => True) R := by
  unfold Ensures
  cases a.run e with
  | ok result => exact h result.1 result.2
  | error err => trivial

/-- A step whose answer is no error. -/
theorem Act.ensures_ok {ε α : Type} {a : Act α} {R : Except ε α → Engine → Prop}
    (h : ∀ x e', R (.ok x) e') : (Except.ok <$> a : Act (Except ε α)).Ensures e (fun _ => True) R :=
  ensures_map (ensures_of_forall fun x e' => h x e')

namespace Talks

theorem start_refuses (id : ObjectId) : (start n p id).Ensures e (fun _ => True) fun answer _ =>
    Request.refused (.startConversation id) answer = true →
      Refusal e p (.startConversation id) answer := by
  refine Act.ensures_get_bind ?_
  cases hget : e.packages.get .conversation id with
  | error err => exact fun _ => .unknownTalk hget
  | ok talk =>
    dsimp only
    cases hscreen : e.registry.screen? (talk.screen.getD e.defaultScreen) with
    | none => exact fun _ => .unknownScreen hget hscreen
    | some style =>
      dsimp only
      cases hsession : e.sessions.find? p with
      | some session => exact fun _ => .talking hget hscreen hsession
      | none =>
        -- From here on the answer is the state of the conversation, whatever its content does.
        refine Act.ensures_bind (Act.ensures_of_forall fun _ _ => trivial) fun _ e₁ _ _ => ?_
        exact Act.ensures_ok fun _ _ => nofun

theorem select_refuses (index : Nat) :
    (select n p index).Ensures e (fun _ => True) fun answer _ =>
      Request.refused (.selectOption index) answer = true →
        Refusal e p (.selectOption index) answer := by
  refine Act.ensures_get_bind ?_
  cases hsession : e.sessions.find? p with
  | none => exact fun _ => .nothingToSelect hsession
  | some session =>
    dsimp only
    cases hphase : session.phase with
    | resolving => exact fun _ => .busy hsession hphase
    | selecting text offered =>
      dsimp only
      cases hindex : offered[index]? with
      | none => exact fun _ => .notOffered hsession hphase (List.getElem?_eq_none_iff.1 hindex)
      | some option =>
        dsimp only
        refine Act.ensures_bind (Act.ensures_of_forall fun _ _ => trivial) fun _ e₁ _ _ => ?_
        cases session.talk.playerOptions.find? option.1 with
        | none => exact Act.ensures_ok fun _ _ => nofun
        | some reply => exact Act.ensures_ok fun _ _ => nofun

theorem navigate_refuses (command : String) :
    (navigate p command).Ensures e (fun _ => True) fun answer _ =>
      Request.refused (.navigate command) answer = true →
        Refusal e p (.navigate command) answer := by
  refine Act.ensures_get_bind ?_
  cases hsession : e.sessions.find? p with
  | none => exact fun _ => .nothingToNavigate hsession
  | some session =>
    dsimp only
    cases session.phase with
    | resolving => exact nofun
    | selecting text offered => exact nofun

end Talks

namespace Objectives

theorem start_refuses (id : ObjectId) : (start p id).Ensures e (fun _ => True) fun answer _ =>
    Request.refused (.startObjective id) answer = true →
      Refusal e p (.startObjective id) answer := by
  refine Act.ensures_objective_bind ?_
  cases hget : e.packages.get .objective id with
  | error err => exact fun _ => .unknownStart hget
  | ok definition =>
    refine Act.ensures_get_bind ?_
    cases hactive : e.progress.isActive p id with
    | true => exact fun _ => .active hget hactive
    | false => exact nofun

theorem remove_run_of_none {held : Nat} {id : ObjectId} {epoch : Option Nat} {how : Ending}
    (h : e.progress.findIn? p held id = none) :
    (remove p held id epoch how).run e = .ok (none, e) := by
  rw [remove_run, h]

theorem remove_run_of_some {held : Nat} {id : ObjectId} {how : Ending} {a : Active}
    (h : e.progress.findIn? p held id = some a) :
    (remove p held id none how).run e = .ok (some a.epoch, e.removed p held id a how) := by
  rw [remove_run, h]
  rfl

theorem cancel_refuses (id : ObjectId) : (cancel p id).Ensures e (fun _ => True) fun answer _ =>
    Request.refused (.cancelObjective id) answer = true →
      Refusal e p (.cancelObjective id) answer := by
  refine Act.ensures_get_bind ?_
  cases hheld : e.progress.held? p with
  | none => exact fun _ => .nothingToCancel (Slots.find?_of_held?_eq_none _ _ _ hheld)
  | some held =>
    have hfindIn := Slots.findIn?_of_held? _ _ _ (o := id) hheld
    cases hactive : e.progress.find? p id with
    | none =>
      refine Act.ensures_bind_of_run (remove_run_of_none (hfindIn.trans hactive)) ?_
      exact fun _ => .nothingToCancel hactive
    | some a =>
      refine Act.ensures_bind_of_run (remove_run_of_some (hfindIn.trans hactive)) ?_
      exact nofun

theorem complete_refuses (id : ObjectId) :
    (complete n p id).Ensures e (fun _ => True) fun answer _ =>
      Request.refused (.completeObjective id) answer = true →
        Refusal e p (.completeObjective id) answer := by
  refine Act.ensures_objective_bind ?_
  cases hget : e.packages.get .objective id with
  | error err => exact fun _ => .unknownComplete hget
  | ok definition =>
    refine Act.ensures_get_bind ?_
    cases hheld : e.progress.held? p with
    | none => exact fun _ => .nothingToComplete hget (Slots.find?_of_held?_eq_none _ _ _ hheld)
    | some held =>
      have hfindIn := Slots.findIn?_of_held? _ _ _ (o := id) hheld
      cases hactive : e.progress.find? p id with
      | none =>
        refine Act.ensures_bind_of_run (remove_run_of_none (hfindIn.trans hactive)) ?_
        exact fun _ => .nothingToComplete hget hactive
      | some a =>
        refine Act.ensures_bind_of_run (remove_run_of_some (hfindIn.trans hactive)) ?_
        -- Once something is removed the answer is no error, whatever its events do.
        refine Act.ensures_bind (Act.ensures_of_forall fun _ _ => trivial) fun _ e₁ _ _ => ?_
        exact nofun

end Objectives

/-- An answer that is an error has a reason in the state that the request found. -/
theorem Request.answer_refuses (r : Request) :
    (r.answer n p).Ensures e (fun _ => True) fun answer _ =>
      r.refused answer = true → Refusal e p r answer := by
  cases r with
  | startConversation id => exact Talks.start_refuses id
  | selectOption index => exact Talks.select_refuses index
  | navigate command => exact Talks.navigate_refuses command
  | startObjective id => exact Objectives.start_refuses id
  | cancelObjective id => exact Objectives.cancel_refuses id
  | completeObjective id => exact Objectives.complete_refuses id
  | talkState | endConversation | disconnect | note _ =>
    exact Act.ensures_of_forall fun _ _ => nofun

/-! ### Every reason leads to its error, and to nothing else -/

/-- Closing a slot that is not empty does nothing. -/
theorem Slots.prune_of_tidy {s : Slots} (h : s.Tidy) (held : Nat) : s.prune p held = s := by
  unfold prune
  cases hslot : s.slots.find? p with
  | none => rfl
  | some slot =>
    refine if_neg fun hempty => ?_
    exact h p slot hslot hempty.2

/-- Cancelling what is not active takes a slot that is not empty, and leaves it. -/
theorem Objectives.cancel_run_of_inactive {id : ObjectId} (he : e.progress.Tidy)
    (hactive : e.progress.find? p id = none) :
    (cancel p id).run e = .ok (.error (.notActive p id), e) := by
  refine (Act.run_get_bind _ e).trans ?_
  cases hheld : e.progress.held? p with
  | none => rfl
  | some held =>
    have hfind : e.progress.findIn? p held id = none :=
      Slots.findIn?_of_find?_eq_none _ _ _ _ hactive
    have hpruned : e.pruned p held = e := by
      rw [Engine.pruned, Slots.prune_of_tidy he]
    refine (Act.run_bind_of_run (remove_run_of_none hfind)).trans ?_
    show Except.ok (Except.error (ProgressError.notActive p id), e.pruned p held) = _
    rw [hpruned]

theorem Objectives.complete_run_of_inactive {id : ObjectId} {definition : Objective}
    (hget : e.packages.get .objective id = .ok definition)
    (hactive : e.progress.find? p id = none) :
    (complete n p id).run e = .ok (.error (.notActive p id), e) := by
  refine (Act.run_objective_bind _ e).trans ?_
  rw [hget]
  refine (Act.run_get_bind _ e).trans ?_
  cases hheld : e.progress.held? p with
  | none => rfl
  | some held =>
    have hfind : e.progress.findIn? p held id = none :=
      Slots.findIn?_of_find?_eq_none _ _ _ _ hactive
    exact Act.run_bind_of_run (remove_run_of_none hfind)

/-- Whoever has a reason to be refused is refused, and nothing has changed. -/
theorem Refusal.run (he : e.progress.Tidy) (h : Refusal e p r answer) :
    (r.answer n p).run e = .ok (answer, e) := by
  -- Each operation looks at what refuses it before it changes anything.
  cases h with
  | unknownTalk hget =>
    refine (Act.run_get_bind _ e).trans ?_
    rw [hget]
    rfl
  | unknownScreen hget hscreen =>
    refine (Act.run_get_bind _ e).trans ?_
    rw [hget]
    simp only [hscreen]
    rfl
  | talking hget hscreen hsession =>
    refine (Act.run_get_bind _ e).trans ?_
    rw [hget]
    simp only [hscreen, hsession]
    rfl
  | nothingToSelect hsession =>
    refine (Act.run_get_bind _ e).trans ?_
    rw [hsession]
    rfl
  | busy hsession hphase =>
    refine (Act.run_get_bind _ e).trans ?_
    simp only [hsession, hphase]
    rfl
  | notOffered hsession hphase hindex =>
    refine (Act.run_get_bind _ e).trans ?_
    simp only [hsession, hphase, List.getElem?_eq_none hindex]
    rfl
  | nothingToNavigate hsession =>
    refine (Act.run_get_bind _ e).trans ?_
    rw [hsession]
    rfl
  | unknownStart hget =>
    refine (Act.run_objective_bind _ e).trans ?_
    rw [hget]
    rfl
  | active hget hactive =>
    refine (Act.run_objective_bind _ e).trans ?_
    rw [hget]
    refine (Act.run_get_bind _ e).trans ?_
    rw [if_pos hactive]
    rfl
  | nothingToCancel hactive => exact Objectives.cancel_run_of_inactive he hactive
  | unknownComplete hget =>
    refine (Act.run_objective_bind _ e).trans ?_
    rw [hget]
    rfl
  | nothingToComplete hget hactive => exact Objectives.complete_run_of_inactive hget hactive

/-! ### Runs -/

namespace Engine

/-- **What is refused changes nothing.**  After any run of commands from a fresh engine:

* A request that is answered with an error leaves the engine as it was: objectives and their epochs,
  slots, the outbox, the agenda, sessions with their phases and histories, the world with the frames
  that wait in it, and all else there is.
* It is so answered if and only if one of the reasons of `Refusal` is given, and with the error that
  belongs to the reason.
-/
theorem refusals_change_nothing (registry : Registry) (integrations : Integrations) (world : World)
    (archived : Bool) (defaultScreen : String) (clock : Calendar.Timestamp) (dice : Dice)
    {levels : Nat}
    {cs : List Command} {e : Engine}
    (hrun : performAll levels cs
      (fresh registry integrations world archived defaultScreen clock dice) = .ok e)
    (levels' : Nat) (p : PlayerId) (r : Request) (answer : r.Answer) :
    (∀ e', e.perform levels' (.request p r) = .ok (answer, e') → r.refused answer = true →
      e' = e) ∧
    ((∃ e', e.perform levels' (.request p r) = .ok (answer, e') ∧ r.refused answer = true) ↔
      Refusal e p r answer) := by
  have he : e.progress.Tidy := tidy_of_performAll Slots.tidy_empty hrun
  have hreason : ∀ e', e.perform levels' (.request p r) = .ok (answer, e') →
      r.refused answer = true → Refusal e p r answer := fun e' hrequest =>
    (Request.answer_refuses r).of_run hrequest
  have hrefused : Refusal e p r answer → r.refused answer = true := by
    intro h
    cases h <;> rfl
  refine ⟨fun e' hrequest herror => ?_, ?_, fun h => ?_⟩
  · have hsame : e.perform levels' (.request p r) = .ok (answer, e) :=
      (hreason e' hrequest herror).run he
    cases hrequest.symm.trans hsame
    rfl
  · rintro ⟨e', hrequest, herror⟩
    exact hreason e' hrequest herror
  · exact ⟨e, h.run he, hrefused h⟩

/-- Someone who hunts wolves cannot start to hunt them once more, nor stop to hunt bears. -/
theorem refusals_change_nothing_of_hunt : ∃ e,
    performAll 1 [.replacePackages wolves,
      .request ⟨"ann"⟩ (.startObjective ⟨"forest", "wolves"⟩)] bare = .ok e ∧
    e.perform 1 (.request ⟨"ann"⟩ (.startObjective ⟨"forest", "wolves"⟩)) =
      .ok (.error (.alreadyActive ⟨"ann"⟩ ⟨"forest", "wolves"⟩), e) ∧
    e.perform 1 (.request ⟨"ann"⟩ (.cancelObjective ⟨"forest", "bears"⟩)) =
      .ok (.error (.notActive ⟨"ann"⟩ ⟨"forest", "bears"⟩), e) := by
  obtain ⟨e, hrun⟩ : ∃ e, performAll 1 [.replacePackages wolves,
    .request ⟨"ann"⟩ (.startObjective ⟨"forest", "wolves"⟩)] bare = .ok e := ⟨_, rfl⟩
  have hrefused : ∀ r answer, Refusal e ⟨"ann"⟩ r answer →
      e.perform 1 (.request ⟨"ann"⟩ r) = .ok (answer, e) := by
    intro r answer h
    obtain ⟨hsame, hreason⟩ := refusals_change_nothing Registry.empty ⟨true, true⟩ World.empty true
      "chat" ⟨0, 0⟩ (fun _ => 0) hrun 1 ⟨"ann"⟩ r answer
    obtain ⟨e', hrequest, herror⟩ := hreason.2 h
    rw [hsame e' hrequest herror] at hrequest
    exact hrequest
  cases hrun
  exact ⟨_, rfl, hrefused _ _ (.active rfl rfl), hrefused _ _ (.nothingToCancel rfl)⟩

end Engine

end Questbook
