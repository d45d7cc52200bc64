/-
Questbook/Proofs/Talk/Course.lean

The course of a session, from its start to its end.

A session begins, its screen shows something time and again, and then it is left: the screen is
closed, and at a natural end the final events are fired.  The chronicle tells how far it has come.
`Running` is a session that someone is in and that has not ended; `Over` is one that nobody is in,
and that has ended once and with all that belongs to its end.

What is done in between is told by `Leads`: a session that was left already stays as it is, and
every other one is on its course.  A change of sessions concerns one of them alone (`Only`), so that
it leads on as soon as that one session is still on its course (`Leads.step`).
-/
import Mathlib.Data.Set.Basic
import Questbook.Talk.Session

namespace Questbook

/-! ### What happens to a session -/

/-- What a screen of a style shows at its end. -/
def Screen.Style.closing : Style → List Frame
  | .chat _ => []
  | .menu _ => [.close]

theorem Screen.close_eq (screen : Screen) : screen.close = screen.style.closing := by
  unfold close
  cases screen.style <;> rfl

/-- What happens to a session before its end: it begins, and then its screen shows something so many
times. -/
def Conversation.opening (talk : Conversation) (style : Screen.Style) (shown : List (List Frame)) :
    List Moment :=
  .began talk style :: shown.map .shown

/-- The final events that an end fires, in their order: all of them if it is a natural one. -/
def Conversation.finale (talk : Conversation) (how : Parting) : List Moment :=
  if how.natural then talk.finalEvents.map fun event => .fired event.id else []

/-- What happens to a session at its end: the player is in it no more, then its screen is closed,
and then its final events are fired as far as this end fires them. -/
def Conversation.ending (talk : Conversation) (style : Screen.Style) (how : Parting) :
    List Moment :=
  .left how :: .closed style.closing :: talk.finale how

namespace Sessions

variable {s s' s₀ s₁ : Sessions} {p q : PlayerId} {session session' : Session} {number M : Nat}
  {talk : Conversation} {style : Screen.Style} {how : Parting}

/-! ### Stories -/

theorem story_tell (what : Moment) : (s.tell p M what).story number =
    if M = number then s.story number ++ [(p, what)] else s.story number := by
  simp only [story, tell, Chronicle.story, List.filter_cons, decide_eq_true_eq]
  split
  · rw [List.reverse_cons, List.map_append]
    rfl
  · rfl

/-- What happens to a session comes last in its story. -/
theorem story_tell_self (what : Moment) : (s.tell p M what).story M = s.story M ++ [(p, what)] := by
  rw [story_tell, if_pos rfl]

theorem story_start (screen : Screen) : (s.start p talk screen).2.story number =
    if s.nextNumber = number then s.story number ++ [(p, .began talk screen.style)]
    else s.story number :=
  s.story_tell (.began talk screen.style)

/-- Stories are only ever gone on with. -/
theorem story_prefix (h : s.chronicle <:+ s'.chronicle) (number : Nat) :
    s.story number <+: s'.story number :=
  (List.reverse_prefix.2 (h.filter _)).map _

/-- What a session has shown in all. -/
def frames (s : Sessions) (number : Nat) : List Frame :=
  (s.story number).flatMap fun x => x.2.frames

/-! ### Where a session stands -/

/-- Nobody is in a session. -/
def Free (s : Sessions) (number : Nat) : Prop :=
  ∀ q session, s.find? q = some session → session.number ≠ number

/-- A session has begun, and nobody is in it any more. -/
def Left (s : Sessions) (number : Nat) : Prop := number < s.nextNumber ∧ s.Free number

/-- A player is in a session, and no one else; it has begun, and its screen has not been closed. -/
structure Running (s : Sessions) (number : Nat) (p : PlayerId) (session : Session) : Prop where
  seated : s.find? p = some session
  numbered : session.number = number
  alone (q : PlayerId) (other : Session) (hother : s.find? q = some other)
    (hnumber : other.number = number) : q = p
  story : ∃ shown : List (List Frame), Frame.close ∉ shown.flatten ∧
    s.story number = (session.talk.opening session.screen.style shown).map (p, ·)

/-- Nobody is in a session any more; it has ended once, with all that belongs to its end, and its
screen had not been closed before. -/
structure Over (s : Sessions) (number : Nat) (p : PlayerId) (talk : Conversation)
    (style : Screen.Style) (how : Parting) : Prop where
  free : s.Free number
  story : ∃ shown : List (List Frame), Frame.close ∉ shown.flatten ∧
    s.story number = (talk.opening style shown ++ talk.ending style how).map (p, ·)

/-- A session has not begun, or is running, or is over. -/
inductive Course (s : Sessions) (number : Nat) : Prop where
  | unborn (hnumber : s.nextNumber ≤ number) (hfree : s.Free number) (hstory : s.story number = [])
  | running {p : PlayerId} {session : Session} (hnumber : number < s.nextNumber)
      (h : s.Running number p session)
  | ended {p : PlayerId} {talk : Conversation} {style : Screen.Style} {how : Parting}
      (hnumber : number < s.nextNumber) (h : s.Over number p talk style how)

theorem Running.not_free (h : s.Running number p session) : ¬ s.Free number :=
  fun hfree => hfree p session h.seated h.numbered

/-- A session that has ended has shown nothing after it was closed, and was closed once. -/
theorem Over.frames (h : s.Over number p talk style how) :
    ∃ shown, Frame.close ∉ shown ∧ s.frames number = shown ++ style.closing := by
  obtain ⟨shown, hopen, hstory⟩ := h.story
  have hshown : (shown.map Moment.shown).flatMap Moment.frames = shown.flatten := by
    rw [List.flatMap_map]
    exact List.flatMap_id
  have hfinale : (talk.finale how).flatMap Moment.frames = [] := by
    unfold Conversation.finale
    split
    · simp [Moment.frames]
    · rfl
  refine ⟨shown.flatten, hopen, ?_⟩
  unfold Sessions.frames
  rw [hstory, List.flatMap_map]
  show (talk.opening style shown ++ talk.ending style how).flatMap Moment.frames = _
  rw [List.flatMap_append, Conversation.opening, Conversation.ending, List.flatMap_cons,
    List.flatMap_cons, List.flatMap_cons, hshown, hfinale, List.append_nil]
  rfl

/-- A player who is in a session that stands so is in one that is running. -/
theorem Course.running_of_find? (h : s.Course session.number)
    (hsession : s.find? p = some session) :
    session.number < s.nextNumber ∧ s.Running session.number p session := by
  cases h with
  | unborn _ hfree => exact absurd rfl (hfree p session hsession)
  | ended _ hover => exact absurd rfl (hover.free p session hsession)
  | running hnumber hrunning =>
    obtain rfl := hrunning.alone p session hsession rfl
    obtain rfl := Option.some.inj (hrunning.seated.symm.trans hsession)
    exact ⟨hnumber, hrunning⟩

/-! ### From one moment to a later one -/

/-- A session that was left stays as it is, and any other one is on its course. -/
structure Follows (s s' : Sessions) (number : Nat) : Prop where
  left (h : s.Left number) : s'.Left number ∧ s'.story number = s.story number
  course (h : ¬ s.Left number) : s'.Course number

/-- Nothing is taken back, and the sessions with numbers in `O` are on their course. -/
structure Leads (O : Set Nat) (s s' : Sessions) : Prop where
  next : s.nextNumber ≤ s'.nextNumber
  chronicle : s.chronicle <:+ s'.chronicle
  follows (number : Nat) (h : number ∈ O) : s.Follows s' number

theorem Follows.trans (h : s₀.Follows s₁ number) (h' : s₁.Follows s number) :
    s₀.Follows s number where
  left hleft :=
    have ⟨hleft₁, hstory₁⟩ := h.left hleft
    have ⟨hleft', hstory'⟩ := h'.left hleft₁
    ⟨hleft', hstory'.trans hstory₁⟩
  course hleft := by
    -- If the session was left meanwhile, it is over since then, and its story is still the same.
    by_cases hleft₁ : s₁.Left number
    · obtain ⟨hleft', hstory'⟩ := h'.left hleft₁
      cases h.course hleft with
      | unborn hnumber => exact absurd hleft₁.1 (Nat.not_lt.2 hnumber)
      | running _ hrunning => exact absurd hleft₁.2 hrunning.not_free
      | ended _ hover => exact .ended hleft'.1 ⟨hleft'.2, hstory' ▸ hover.story⟩
    · exact h'.course hleft₁

theorem Follows.self (h : s₀.Follows s number) : s.Follows s number where
  left hleft := ⟨hleft, rfl⟩
  course hleft := h.course fun hleft₀ => hleft (h.left hleft₀).1

theorem Leads.trans {O : Set Nat} (h : s₀.Leads O s₁) (h' : s₁.Leads O s) : s₀.Leads O s where
  next := h.next.trans h'.next
  chronicle := h.chronicle.trans h'.chronicle
  follows number hO := (h.follows number hO).trans (h'.follows number hO)

theorem Leads.mono {O O' : Set Nat} (h : s₀.Leads O s) (hO : O' ⊆ O) : s₀.Leads O' s :=
  { h with follows := fun number hnumber => h.follows number (hO hnumber) }

/-- Where all sessions are on their course, each of them stands as it should. -/
theorem Leads.self {O : Set Nat} (h : s₀.Leads O s) : s.Leads O s where
  next := le_rfl
  chronicle := List.suffix_rfl
  follows number hO := (h.follows number hO).self

/-- Whoever is in a session is in one that is running. -/
theorem Leads.running (h : s₀.Leads Set.univ s) (hsession : s.find? p = some session) :
    session.number < s.nextNumber ∧ s.Running session.number p session :=
  ((h.self.follows session.number (Set.mem_univ _)).course
    fun hleft => hleft.2 p session hsession rfl).running_of_find? hsession

/-- All but one session are on their course, and so is the one that is left. -/
theorem Leads.step (h : s₀.Leads Set.univ s) (h' : s.Leads {M}ᶜ s') (hM : ¬ s.Left M)
    (hcourse : s'.Course M) : s₀.Leads Set.univ s' where
  next := h.next.trans h'.next
  chronicle := h.chronicle.trans h'.chronicle
  follows number _ := by
    have hfollows := h.follows number (Set.mem_univ _)
    by_cases hnumber : number = M
    · subst hnumber
      have hM₀ : ¬ s₀.Left number := fun hleft => hM (hfollows.left hleft).1
      exact ⟨fun hleft => absurd hleft hM₀, fun _ => hcourse⟩
    · exact hfollows.trans (h'.follows number hnumber)

/-- A player whose former session is left has no other one but one that was begun since. -/
theorem Leads.since (h : s₀.Leads Set.univ s) (h₀ : s₀.Leads Set.univ s₀)
    (hgone : ∀ former, s₀.find? p = some former → s.Free former.number)
    (hsession : s.find? p = some session) : s₀.nextNumber ≤ session.number ∧
      (p, .began session.talk session.screen.style) ∈ s.story session.number := by
  obtain ⟨-, hrunning⟩ := h.running hsession
  obtain ⟨shown, -, hstory⟩ := hrunning.story
  refine ⟨?_, by rw [hstory]; exact List.mem_cons_self⟩
  by_contra hnumber
  have hleft : ¬ s₀.Left session.number := fun hleft =>
    hrunning.not_free ((h.follows _ (Set.mem_univ _)).left hleft).1.2
  cases (h₀.follows _ (Set.mem_univ _)).course hleft with
  | unborn hunborn => exact hnumber hunborn
  | ended hborn hover => exact hleft ⟨hborn, hover.free⟩
  | @running q former _ hformer =>
    -- The story of the session goes on from what it was, so it tells of the same player.
    obtain ⟨shown₀, -, hstory₀⟩ := hformer.story
    have hprefix := story_prefix h.chronicle session.number
    rw [hstory, hstory₀, Conversation.opening, Conversation.opening, List.map_cons, List.map_cons,
      List.cons_prefix_cons] at hprefix
    obtain rfl : q = p := congrArg Prod.fst hprefix.1
    exact hgone former hformer.seated q session hsession hformer.numbered.symm

/-! ### Changes of one session -/

/-- A change concerns one session alone. -/
structure Only (M : Nat) (s s' : Sessions) : Prop where
  next : s.nextNumber ≤ s'.nextNumber
  chronicle : s.chronicle <:+ s'.chronicle
  born (number : Nat) (h : number ≠ M) : number < s'.nextNumber ↔ number < s.nextNumber
  seats (q : PlayerId) (session : Session) (h : session.number ≠ M) :
    s'.find? q = some session ↔ s.find? q = some session
  story (number : Nat) (h : number ≠ M) : s'.story number = s.story number

theorem Only.trans (h : Only M s s₁) (h' : Only M s₁ s') : Only M s s' where
  next := h.next.trans h'.next
  chronicle := h.chronicle.trans h'.chronicle
  born number hM := (h'.born number hM).trans (h.born number hM)
  seats q session hM := (h'.seats q session hM).trans (h.seats q session hM)
  story number hM := (h'.story number hM).trans (h.story number hM)

theorem only_tell (s : Sessions) (p : PlayerId) (M : Nat) (what : Moment) :
    Only M s (s.tell p M what) where
  next := le_rfl
  chronicle := List.suffix_cons _ _
  born _ _ := Iff.rfl
  seats _ _ _ := Iff.rfl
  story number hM := by rw [story_tell, if_neg hM.symm]

theorem only_put (hsession : s.find? p = some session)
    (hnumber : session'.number = session.number) :
    Only session.number s (s.put p session') where
  next := le_rfl
  chronicle := List.suffix_rfl
  born _ _ := Iff.rfl
  seats q other hM := by
    rw [find?_put]
    split
    · rename_i hp
      subst hp
      rw [hsession]
      refine ⟨fun h => ?_, fun h => ?_⟩
      · cases h
        exact absurd hnumber hM
      · cases h
        exact absurd rfl hM
    · exact Iff.rfl
  story _ _ := rfl

theorem only_drop (hsession : s.find? p = some session) : Only session.number s (s.drop p) where
  next := le_rfl
  chronicle := List.suffix_rfl
  born _ _ := Iff.rfl
  seats q other hM := by
    rw [find?_drop]
    split
    · rename_i hp
      subst hp
      rw [hsession]
      refine ⟨nofun, fun h => ?_⟩
      cases h
      exact absurd rfl hM
    · exact Iff.rfl
  story _ _ := rfl

theorem only_start (hfree : s.find? p = none) (talk : Conversation) (screen : Screen) :
    Only s.nextNumber s (s.start p talk screen).2 where
  next := Nat.le_succ _
  chronicle := List.suffix_cons _ _
  born number hM := by
    show number < s.nextNumber + 1 ↔ number < s.nextNumber
    omega
  seats q other hM := by
    rw [find?_start]
    split
    · rename_i hp
      subst hp
      rw [hfree]
      refine ⟨fun h => ?_, nofun⟩
      cases h
      exact absurd rfl hM
    · exact Iff.rfl
  story number hM := by rw [story_start, if_neg hM.symm]

theorem Only.free_iff (h : Only M s s') (hM : number ≠ M) : s'.Free number ↔ s.Free number := by
  refine ⟨fun hfree q session hsession hnumber => ?_, fun hfree q session hsession hnumber => ?_⟩
  · exact hfree q session ((h.seats q session (hnumber ▸ hM)).2 hsession) hnumber
  · exact hfree q session ((h.seats q session (hnumber ▸ hM)).1 hsession) hnumber

theorem Only.left_iff (h : Only M s s') (hM : number ≠ M) : s'.Left number ↔ s.Left number :=
  and_congr (h.born number hM) (h.free_iff hM)

/-- The other sessions stand where they stood. -/
theorem Only.course (h : Only M s s') (hM : number ≠ M) (hcourse : s.Course number) :
    s'.Course number := by
  have hstory := h.story number hM
  cases hcourse with
  | unborn hnumber hfree hnone =>
    exact .unborn (Nat.not_lt.1 fun hborn => Nat.not_lt.2 hnumber ((h.born number hM).1 hborn))
      ((h.free_iff hM).2 hfree) (hstory.trans hnone)
  | @running p session hnumber hrunning =>
    have hsession : session.number ≠ M := hrunning.numbered ▸ hM
    exact .running ((h.born number hM).2 hnumber)
      { seated := (h.seats p session hsession).2 hrunning.seated
        numbered := hrunning.numbered
        alone := fun q other hother hn =>
          hrunning.alone q other ((h.seats q other (hn ▸ hM)).1 hother) hn
        story := hstory ▸ hrunning.story }
  | ended hnumber hover =>
    exact .ended ((h.born number hM).2 hnumber)
      ⟨(h.free_iff hM).2 hover.free, hstory ▸ hover.story⟩

/-- A change that concerns one session alone leads the others on. -/
theorem Only.leads (h : Only M s s') (hs : s.Leads Set.univ s) : s.Leads {M}ᶜ s' where
  next := h.next
  chronicle := h.chronicle
  follows number hM :=
    { left := fun hleft => ⟨(h.left_iff hM).2 hleft, h.story number hM⟩
      course := fun hleft =>
        h.course hM ((hs.follows number (Set.mem_univ _)).course hleft) }

/-- If a change concerns one session alone, and that one is left, all of them stand as they
should. -/
theorem Only.self (h : Only M s s') (hs : s.Leads Set.univ s) (hM : s'.Left M) :
    s'.Leads Set.univ s' where
  next := le_rfl
  chronicle := List.suffix_rfl
  follows number _ := by
    by_cases hnumber : number = M
    · subst hnumber
      exact ⟨fun hleft => ⟨hleft, rfl⟩, fun hleft => absurd hM hleft⟩
    · exact ((h.leads hs).follows number hnumber).self

/-- A change that concerns one session alone, which is on its course before and after it. -/
theorem Leads.only (h : s₀.Leads Set.univ s) (ho : Only M s s') (hM : ¬ s.Left M)
    (hcourse : s'.Course M) : s₀.Leads Set.univ s' :=
  h.step (ho.leads h.self) hM hcourse

/-! ### The course of a session -/

/-- A session begins. -/
theorem Leads.start (h : s₀.Leads Set.univ s) (hfree : s.find? p = none) (talk : Conversation)
    (screen : Screen) : s₀.Leads Set.univ (s.start p talk screen).2 := by
  have hunborn : ¬ s.Left s.nextNumber := fun hleft => Nat.lt_irrefl _ hleft.1
  refine h.only (only_start hfree talk screen) hunborn ?_
  -- The next number belongs to nobody yet, so that the new session is alone with it.
  cases (h.self.follows _ (Set.mem_univ _)).course hunborn with
  | running hnumber | ended hnumber => exact absurd hnumber (Nat.lt_irrefl _)
  | unborn _ hnobody hstory =>
    have hseat : (s.start p talk screen).2.find? p =
        some ⟨s.nextNumber, talk, .resolving, [], screen⟩ := by rw [find?_start, if_pos rfl]
    refine .running (Nat.lt_succ_self _)
      { seated := hseat
        numbered := rfl
        alone := fun q other hother hnumber => ?_
        story := ⟨[], List.not_mem_nil, by rw [story_start, if_pos rfl, hstory]; rfl⟩ }
    rw [find?_start] at hother
    split at hother
    · rename_i hp
      exact hp.symm
    · exact absurd hnumber (hnobody q other hother)

/-- A session goes on. -/
theorem Running.put (h : s.Running M p session) (htalk : session'.talk = session.talk)
    (hnumber : session'.number = session.number)
    (hstyle : session'.screen.style = session.screen.style) :
    (s.put p session').Running M p session' where
  seated := find?_put_self
  numbered := hnumber.trans h.numbered
  alone q other hother hn := by
    rw [find?_put] at hother
    split at hother
    · rename_i hp
      exact hp.symm
    · exact h.alone q other hother hn
  story := by
    rw [htalk, hstyle]
    exact h.story

theorem Running.shown {frames : List Frame} (h : s.Running M p session)
    (hopen : Frame.close ∉ frames) :
    (s.tell p M (.shown frames)).Running M p session where
  seated := h.seated
  numbered := h.numbered
  alone := h.alone
  story := by
    obtain ⟨shown, hshown, hstory⟩ := h.story
    refine ⟨shown ++ [frames], ?_, ?_⟩
    · rw [List.flatten_concat, List.mem_append]
      exact fun hclose => hclose.elim hshown hopen
    · rw [story_tell_self, hstory, Conversation.opening, Conversation.opening, List.map_append,
        ← List.cons_append, List.map_append]
      rfl

theorem Leads.put (h : s₀.Leads Set.univ s) (hsession : s.find? p = some session)
    (htalk : session'.talk = session.talk) (hnumber : session'.number = session.number)
    (hstyle : session'.screen.style = session.screen.style) :
    s₀.Leads Set.univ (s.put p session') := by
  obtain ⟨hborn, hrunning⟩ := h.running hsession
  exact h.only (only_put hsession hnumber) (fun hleft => hrunning.not_free hleft.2)
    (.running hborn (hrunning.put htalk hnumber hstyle))

theorem Leads.shown {frames : List Frame} (h : s₀.Leads Set.univ s)
    (hsession : s.find? p = some session) (hopen : Frame.close ∉ frames) :
    s₀.Leads Set.univ (s.tell p session.number (.shown frames)) := by
  obtain ⟨hborn, hrunning⟩ := h.running hsession
  exact h.only (only_tell ..) (fun hleft => hrunning.not_free hleft.2)
    (.running hborn (hrunning.shown hopen))

/-- A player is in his session no more, and its screen is closed. -/
def parted (s : Sessions) (p : PlayerId) (session : Session) (how : Parting) : Sessions :=
  ((s.drop p).tell p session.number (.left how)).tell p session.number
    (.closed session.screen.close)

theorem only_parted (hsession : s.find? p = some session) (how : Parting) :
    Only session.number s (s.parted p session how) :=
  ((only_drop hsession).trans (only_tell ..)).trans (only_tell ..)

theorem Running.parted (h : s.Running session.number p session) (how : Parting) :
    (s.parted p session how).Free session.number := by
  intro q other hother hnumber
  have hdrop : (s.drop p).find? q = some other := hother
  rw [find?_drop] at hdrop
  split at hdrop
  · cases hdrop
  · rename_i hq
    exact hq (h.alone q other hdrop hnumber).symm

theorem story_parted (s : Sessions) (p : PlayerId) (session : Session) (how : Parting) :
    (s.parted p session how).story session.number = s.story session.number ++
      [(p, .left how), (p, .closed session.screen.style.closing)] := by
  rw [parted, story_tell_self, story_tell_self, Screen.close_eq, List.append_assoc]
  rfl

/-- A session is left and its final events are fired, and meanwhile the others are on their course:
so that one is over, and all of them have been led on. -/
theorem Leads.depart (h : s₀.Leads Set.univ s) (hsession : s.find? p = some session)
    (hrest : (s.parted p session how).Leads {session.number}ᶜ s') (hleft : s'.Left session.number)
    (hstory : s'.story session.number = (s.parted p session how).story session.number ++
      (session.talk.finale how).map (p, ·)) :
    s₀.Leads Set.univ s' ∧
      s'.Over session.number p session.talk session.screen.style how := by
  obtain ⟨-, hrunning⟩ := h.running hsession
  obtain ⟨shown, hopen, hbefore⟩ := hrunning.story
  have hover : s'.Over session.number p session.talk session.screen.style how := by
    refine ⟨hleft.2, shown, hopen, ?_⟩
    rw [hstory, story_parted, hbefore, List.map_append, Conversation.ending, List.append_assoc]
    rfl
  refine ⟨?_, hover⟩
  exact h.step (((only_parted hsession how).leads h.self).trans hrest)
    (fun hleft => hrunning.not_free hleft.2) (.ended hleft.1 hover)

end Sessions

end Questbook
