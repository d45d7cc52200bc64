/-
Questbook/Proofs/Package/Arrangement.lean

Keyed arguments stand anywhere in a line.

Two lines are compared of which one has the keyed arguments of the other in other places
(`Rearranged`).  Keyed arguments are asked for before positional ones, by the gate of a definition
and then by its keyword, and each of them is found wherever it stands, since no other has its key.
With every key that has been asked for there is one less to tell the lines apart by, and when none
is left the same arguments are ahead in both (`Reader.Respects`).

What is read on the way is the same in both lines, so that the two plans make the same references
and come to the same definition, or to failures that differ in the position that they name and in
nothing else (`Plan.Matches`).

Main result: `keyed_stand_anywhere`.
-/
import Questbook.Proofs.Line.Arguments
import Questbook.Proofs.Package.Compile
import Questbook.Proofs.Package.Evaluate
import Questbook.Proofs.Package.Vocabulary

namespace Questbook

open Line

/-! ### Failures without their positions -/

/-- An error in a line, whichever token it names. -/
def LineError.unplaced (e : LineError) : LineError := { e with index := 0 }

/-- A failed construction, whichever token of the line it names. -/
def BuildError.unplaced : BuildError → BuildError
  | parse e => parse e.unplaced
  | unknownKeyword kind keyword => unknownKeyword kind keyword
  | notFound e => notFound e
  | invalid text => invalid text
  | featureUnavailable feature => featureUnavailable feature

/-- What two constructions have come to is the same, but for the token that a failure names. -/
def SameUnplaced {α : Type} (x y : Except BuildError α) : Prop :=
  x.mapError BuildError.unplaced = y.mapError BuildError.unplaced

/-! ### Arrangements of tokens -/

/-- Whether a token has a key, and a value behind it. -/
def hasKey (key token : String) : Bool := (valueOf? key token).isSome

/-- Whether a token has one of some keys. -/
def isKeyed (keys : List String) (token : String) : Bool := keys.any (hasKey · token)

/-- Tokens of which those with one of the keys stand in other places.  There is one at most for each
of the keys, and all other tokens stand in the order in which they stood. -/
structure Rearranged (keys ts ts' : List String) : Prop where
  perm : ts'.Perm ts
  order : ts'.filter (!isKeyed keys ·) = ts.filter (!isKeyed keys ·)
  once : ∀ key ∈ keys, (ts.filter (hasKey key)).length ≤ 1

namespace Rearranged

variable {key : String} {keys ts ts' : List String}

/-- Where no token has a key, all stand as they stood. -/
theorem eq (h : Rearranged [] ts ts') : ts' = ts := by
  have hall (l : List String) : l.filter (!isKeyed [] ·) = l :=
    List.filter_eq_self.2 fun _ _ => rfl
  have horder := h.order
  rwa [hall, hall] at horder

/-- The token with a key is the same one. -/
theorem filter_hasKey (h : Rearranged (key :: keys) ts ts') :
    ts'.filter (hasKey key) = ts.filter (hasKey key) := by
  have hperm : (ts'.filter (hasKey key)).Perm (ts.filter (hasKey key)) := h.perm.filter _
  have hlength := h.once key List.mem_cons_self
  match hts : ts.filter (hasKey key) with
  | [] =>
    rw [hts] at hperm
    exact hperm.eq_nil
  | [t] =>
    rw [hts] at hperm
    exact List.perm_singleton.1 hperm
  | _ :: _ :: _ =>
    rw [hts] at hlength
    simp at hlength

/-- Without that token the others are arranged anew by the keys that are left. -/
theorem tail (h : Rearranged (key :: keys) ts ts') :
    Rearranged keys (ts.filter (!hasKey key ·)) (ts'.filter (!hasKey key ·)) where
  perm := h.perm.filter _
  order := by
    have hsplit (l : List String) : (l.filter (!hasKey key ·)).filter (!isKeyed keys ·) =
        l.filter (!isKeyed (key :: keys) ·) := by
      rw [List.filter_filter]
      apply List.filter_congr
      intro t _
      show (!isKeyed keys t && !hasKey key t) = !(hasKey key t || isKeyed keys t)
      rw [Bool.not_or, Bool.and_comm]
    rw [hsplit, hsplit, h.order]
  once other hother := by
    have hsub : ((ts.filter (!hasKey key ·)).filter (hasKey other)).length ≤
        (ts.filter (hasKey other)).length :=
      (List.filter_sublist.filter _).length_le
    exact hsub.trans (h.once other (List.mem_cons_of_mem _ hother))

end Rearranged

/-! ### Lines -/

namespace Line

variable {l l' : Line} {key keyword : String} {keys : List String}

/-- What is ahead of a line, without the positions. -/
def aheadTexts (l : Line) : List String := l.ahead.map Prod.snd

/-- Lines of one keyword, nothing of which has been handed out, with the keyed arguments in other
places. -/
structure Differ (keyword : String) (keys : List String) (l l' : Line) : Prop where
  origin : l'.origin = l.origin
  keyword_left : l.keyword = keyword
  keyword_right : l'.keyword = keyword
  cursor_left : l.cursor = 0
  cursor_right : l'.cursor = 0
  unread : Rearranged keys l.unread l'.unread

/-- Lines with the same arguments ahead, at whatever positions. -/
structure SameAhead (l l' : Line) : Prop where
  origin : l'.origin = l.origin
  ahead : l'.aheadTexts = l.aheadTexts

theorem unread_eq_aheadTexts (h : l.cursor = 0) : l.unread = l.aheadTexts := by
  have hahead : l.ahead = l.free :=
    List.filter_eq_self.2 fun a ha => by simpa [h] using pos_of_mem_free ha
  rw [unread_eq, aheadTexts, hahead]

/-- When all keys have been asked for, the lines have the same arguments ahead. -/
theorem Differ.sameAhead (h : Differ keyword [] l l') : SameAhead l l' where
  origin := h.origin
  ahead := by
    rw [← unread_eq_aheadTexts h.cursor_left, ← unread_eq_aheadTexts h.cursor_right]
    exact h.unread.eq

/-- A keyed argument that is the only one of its key is taken wherever it stands, and the others
stay as they are. -/
theorem read_optional_of_once (h : (l.unread.filter (hasKey key)).length ≤ 1) :
    ∃ l₁, l.read (optional key) =
        (.ok ((l.unread.filter (hasKey key)).head?.bind (valueOf? key)), l₁) ∧
      l.Alike l₁ ∧ l₁.cursor = l.cursor ∧ l₁.unread = l.unread.filter (!hasKey key ·) := by
  let taken := l.free.filter fun a => hasKey key a.2
  have htexts : taken.map Prod.snd = l.unread.filter (hasKey key) := by
    rw [unread_eq, List.filter_map]
    rfl
  have htakes : Call.takes l (.optional key) = taken := by
    have hlength : taken.length ≤ 1 := by rwa [← htexts, List.length_map] at h
    exact List.take_of_length_le hlength
  obtain ⟨halike, hcursor, hfree⟩ := leaves_eq (l := l) (.optional key)
  refine ⟨Call.leaves l (.optional key), ?_, halike, hcursor, ?_⟩
  · have hread := read_call (l := l) (.optional key)
    rw [htakes] at hread
    refine hread.trans ?_
    rw [← htexts, List.head?_map, Option.bind_map]
    rfl
  · -- No two free arguments have one position, so that those are left that do not have the key.
    rw [unread_eq, hfree, htakes, unread_eq, List.filter_map]
    congr 1
    apply List.filter_congr
    intro a ha
    rw [Bool.eq_iff_iff, decide_eq_true_iff]
    show a.1 ∉ taken.map Prod.fst ↔ (!hasKey key a.2) = true
    rw [Bool.not_eq_true', ← Bool.not_eq_true]
    refine not_congr ⟨fun hmem => ?_, fun hkey => ?_⟩
    · obtain ⟨b, hb, hfst⟩ := List.mem_map.1 hmem
      obtain ⟨hfreeb, hkeyb⟩ := List.mem_filter.1 hb
      rwa [List.inj_on_of_nodup_map nodup_free hfreeb ha hfst] at hkeyb
    · exact List.mem_map_of_mem (List.mem_filter.2 ⟨ha, hkey⟩)

/-! ### Readers -/

/-- Two lines are read alike: with the same answer, and what is left of them is related by `R`, or
with failures that differ in their positions. -/
inductive Reads {α : Type} (R : Line → Line → Prop) :
    Except LineError α × Line → Except LineError α × Line → Prop
  | ok {a : α} {l l' : Line} (h : R l l') : Reads R (.ok a, l) (.ok a, l')
  | error {e e' : LineError} {l l' : Line} (h : e.unplaced = e'.unplaced) :
      Reads R (.error e, l) (.error e', l')

/-- Lines related by `R` are read alike, and what is left of them is related by `R'`. -/
def Reader.Respects {α : Type} (R R' : Line → Line → Prop) (r : Reader α) : Prop :=
  ∀ l l', R l l' → Reads R' (l.read r) (l'.read r)

section

variable {α β : Type} {R R' R'' : Line → Line → Prop}

/-- Whatever readers do, the definition that a line belongs to is that of the other line. -/
def SameOrigin (R : Line → Line → Prop) : Prop := ∀ l l', R l l' → l'.origin = l.origin

theorem sameOrigin_differ : SameOrigin (Differ keyword keys) := fun _ _ h => h.origin

theorem sameOrigin_sameAhead : SameOrigin SameAhead := fun _ _ h => h.origin

theorem respects_pure (a : α) : (pure a : Reader α).Respects R R := by
  intro l l' h
  exact .ok h

theorem respects_bind {r : Reader α} {f : α → Reader β} (hr : r.Respects R R')
    (hf : ∀ a, (f a).Respects R' R'') : (r >>= f).Respects R R'' := by
  intro l l' h
  have hreads := hr l l' h
  rw [read_bind, read_bind]
  generalize l.read r = x at hreads ⊢
  generalize l'.read r = y at hreads ⊢
  cases hreads with
  | ok h' => exact hf _ _ _ h'
  | error he => exact .error he

theorem respects_failHere (hR : SameOrigin R) (problem : LineProblem) :
    (failHere problem : Reader α).Respects R R' := by
  intro l l' h
  apply Reads.error
  show (⟨l.origin, 0, problem⟩ : LineError) = ⟨l'.origin, 0, problem⟩
  rw [hR l l' h]

theorem respects_choice [Choice α] (hR : SameOrigin R) (token : String) :
    (choice token : Reader α).Respects R R := by
  unfold choice
  split
  · exact respects_pure _
  · exact respects_failHere hR _

/-- A keyed argument is read from either line, and is one key less that they differ by. -/
theorem respects_optional :
    (optional key).Respects (Differ keyword (key :: keys)) (Differ keyword keys) := by
  intro l l' h
  have hsame := h.unread.filter_hasKey
  have honce := h.unread.once key List.mem_cons_self
  have honce' : (l'.unread.filter (hasKey key)).length ≤ 1 := by rwa [hsame]
  obtain ⟨l₁, hread, halike, hcursor, hunread⟩ := read_optional_of_once honce
  obtain ⟨l₁', hread', halike', hcursor', hunread'⟩ := read_optional_of_once honce'
  rw [hread, hread', hsame]
  apply Reads.ok
  exact {
    origin := halike'.1.trans (h.origin.trans halike.1.symm)
    keyword_left := halike.keyword_eq.trans h.keyword_left
    keyword_right := halike'.keyword_eq.trans h.keyword_right
    cursor_left := hcursor.trans h.cursor_left
    cursor_right := hcursor'.trans h.cursor_right
    unread := by
      rw [hunread, hunread']
      exact h.unread.tail }

theorem respects_optionalList :
    (optionalList key).Respects (Differ keyword (key :: keys)) (Differ keyword keys) := by
  refine respects_bind respects_optional fun value => ?_
  cases value with
  | none => exact respects_pure _
  | some value => exact respects_pure _

/-- Lines with the same arguments ahead hand out the same one. -/
theorem respects_next : next.Respects SameAhead SameAhead := by
  intro l l' h
  have hahead := h.ahead
  unfold aheadTexts at hahead
  rw [read_next, read_next]
  match hl : l.ahead, hl' : l'.ahead with
  | [], [] =>
    apply Reads.error
    show (⟨l.origin, 0, .missingArgument⟩ : LineError) = ⟨l'.origin, 0, .missingArgument⟩
    rw [h.origin]
  | [], _ :: _ | _ :: _, [] =>
    rw [hl, hl'] at hahead
    cases hahead
  | a :: more, b :: more' =>
    rw [hl, hl'] at hahead
    obtain ⟨htext, hmore⟩ := List.cons.inj hahead
    show Reads SameAhead (.ok a.2, l.moveTo a.1) (.ok b.2, l'.moveTo b.1)
    rw [htext]
    apply Reads.ok
    refine ⟨h.origin, ?_⟩
    unfold aheadTexts
    rw [ahead_moveTo hl, ahead_moveTo hl', hmore]

theorem respects_nextAs (expected : String) (f : String → Option α) :
    (nextAs expected f).Respects SameAhead SameAhead := by
  refine respects_bind respects_next fun token => ?_
  split
  · exact respects_pure _
  · exact respects_failHere sameOrigin_sameAhead _

theorem respects_nextPositive : nextPositive.Respects SameAhead SameAhead := by
  refine respects_bind (respects_nextAs _ _) fun n => ?_
  split
  · exact respects_failHere sameOrigin_sameAhead _
  · exact respects_pure _

theorem respects_nextChoice [Choice α] : (nextChoice : Reader α).Respects SameAhead SameAhead :=
  respects_bind respects_next fun token => respects_choice sameOrigin_sameAhead token

theorem respects_nextList : nextList.Respects SameAhead SameAhead := by
  show (next >>= fun token => pure (Text.listed token)).Respects SameAhead SameAhead
  exact respects_bind respects_next fun token => respects_pure _

theorem respects_nextLocation : nextLocation.Respects SameAhead SameAhead := by
  refine respects_bind respects_next fun token => ?_
  split
  · exact respects_pure _
  · exact respects_failHere sameOrigin_sameAhead _

/-- Nothing is ahead of a line when all that was ahead has been handed out. -/
theorem ahead_foldl_moveTo (l : Line) :
    (l.ahead.foldl (fun l a => l.moveTo a.1) l).ahead = [] := by
  generalize hl : l.ahead = ahead
  induction ahead generalizing l with
  | nil => exact hl
  | cons a more ih => exact ih (l.moveTo a.1) (ahead_moveTo hl)

theorem respects_rest : rest.Respects SameAhead SameAhead := by
  intro l l' h
  have horigin (l : Line) : (l.ahead.foldl (fun l a => l.moveTo a.1) l).origin = l.origin :=
    (foldl_moveTo fun a ha => pos_of_mem_free (List.mem_filter.1 ha).1).1.1
  have hempty : l'.ahead.isEmpty = l.ahead.isEmpty := by
    have hlength := congrArg List.isEmpty h.ahead
    simpa [aheadTexts] using hlength
  have htexts : l'.ahead.map Prod.snd = l.ahead.map Prod.snd := h.ahead
  rw [read_rest, read_rest, hempty, htexts]
  split
  · apply Reads.error
    show (⟨l.origin, 0, .missingArgument⟩ : LineError) = ⟨l'.origin, 0, .missingArgument⟩
    rw [h.origin]
  · apply Reads.ok
    refine ⟨?_, ?_⟩
    · rw [horigin, horigin, h.origin]
    · unfold aheadTexts
      rw [ahead_foldl_moveTo, ahead_foldl_moveTo]

end

end Line

/-! ### Plans and drafts -/

/-- Two plans go the same way: they make the same references and come to the same answer, with what
they leave of what they read from related by `R`, or to failures that differ in their positions. -/
inductive Plan.Matches {σ α : Type} (R : σ → σ → Prop) : Plan σ α → Plan σ α → Prop
  | done {a : α} {s s' : σ} (h : R s s') : Matches R (.done a s) (.done a s')
  | fail {e e' : BuildError} {s s' : σ} (h : e.unplaced = e'.unplaced) :
      Matches R (.fail e s) (.fail e' s')
  | refer {r : Reference} {s s' : σ} {next next' : r.Target → Plan σ α}
      (h : ∀ t, Matches R (next t) (next' t)) : Matches R (.refer r s next) (.refer r s' next')

namespace Plan.Matches

variable {σ α β : Type} {R R' : σ → σ → Prop} {plan plan' : Plan σ α}

theorem refl (plan : Plan σ α) : plan.Matches (fun _ _ => True) plan := by
  induction plan with
  | done => exact .done trivial
  | fail => exact .fail rfl
  | refer _ _ _ ih => exact .refer ih

theorem bind {f f' : α → σ → Plan σ β} (h : plan.Matches R plan')
    (hf : ∀ a s s', R s s' → (f a s).Matches R' (f' a s')) :
    (plan.bind f).Matches R' (plan'.bind f') := by
  induction h with
  | done h => exact hf _ _ _ h
  | fail h => exact .fail h
  | refer _ ih => exact .refer ih

theorem forget (h : plan.Matches R plan') : plan.forget.Matches (fun _ _ => True) plan'.forget := by
  induction h with
  | done => exact .done trivial
  | fail h => exact .fail h
  | refer _ ih => exact .refer ih

/-- Plans that go the same way come to the same end, whoever answers their references. -/
theorem run (h : plan.Matches R plan') (sources : Sources) (package : String) (builder : Builder)
    (w : Workshop) :
    SameUnplaced (plan.run sources package builder w).1 (plan'.run sources package builder w).1 ∧
      (plan.run sources package builder w).2.2 = (plan'.run sources package builder w).2.2 := by
  induction h generalizing w with
  | done => exact ⟨rfl, rfl⟩
  | fail h => exact ⟨congrArg Except.error h, rfl⟩
  | @refer r s s' next next' _ ih =>
    rw [Plan.run, Plan.run]
    rcases r.resolve sources package builder w with ⟨err | t, w'⟩
    · exact ⟨rfl, rfl⟩
    · exact ih t w'

theorem succeeds_iff {sources : Sources} {package : String} {S : Stock} {a : α}
    (h : plan.Matches R plan') :
    plan.Succeeds sources package S a ↔ plan'.Succeeds sources package S a := by
  induction h with
  | done | fail => exact Iff.rfl
  | refer _ ih => exact exists_congr fun t => and_congr_right fun _ => ih t

end Plan.Matches

namespace Draft

variable {α β γ : Type} {R R' R'' : Line → Line → Prop}

/-- From lines related by `R` a draft makes plans that go the same way, and leave lines related by
`R'`. -/
def Respects (R R' : Line → Line → Prop) (draft : LineDraft α) : Prop :=
  ∀ l l', R l l' → (draft l).Matches R' (draft l')

theorem Respects.mono {S : Line → Line → Prop} {draft : LineDraft α} (h : draft.Respects R R')
    (hS : ∀ l l', S l l' → R l l') : draft.Respects S R' :=
  fun l l' hl => h l l' (hS l l' hl)

theorem respects_pure (a : α) : (pure a : LineDraft α).Respects R R := by
  intro l l' h
  exact .done h

theorem respects_bind {draft : LineDraft α} {f : α → LineDraft β} (hd : draft.Respects R R')
    (hf : ∀ a, (f a).Respects R' R'') : (draft >>= f).Respects R R'' :=
  fun l l' h => (hd l l' h).bind fun a s s' hs => hf a s s' hs

theorem respects_map {draft : LineDraft α} (f : α → β) (hd : draft.Respects R R') :
    (f <$> draft).Respects R R' :=
  respects_bind hd fun a => respects_pure (f a)

theorem respects_fail (e : BuildError) : (fail e : LineDraft α).Respects R R' :=
  fun _ _ _ => .fail rfl

/-- A reference does not read from the line. -/
theorem respects_refer (r : Reference) : (refer r : LineDraft r.Target).Respects R R :=
  fun _ _ h => .refer fun _ => .done h

theorem respects_each {f : γ → LineDraft α} (hf : ∀ c, (f c).Respects R R) (cs : List γ) :
    (each f cs).Respects R R := by
  induction cs with
  | nil => exact respects_pure _
  | cons c rest ih =>
    exact respects_bind (hf c) fun a => respects_bind ih fun as => respects_pure _

/-- What is read alike goes the same way. -/
theorem respects_read {r : Reader α} (hr : r.Respects R R') : (read r).Respects R R' := by
  intro l l' h
  have hreads := hr l l' h
  unfold read
  generalize l.read r = x at hreads ⊢
  generalize l'.read r = y at hreads ⊢
  cases hreads with
  | ok h' => exact .done h'
  | error he => exact .fail (congrArg BuildError.parse he)

theorem respects_richText (raw : String) : (richText raw : LineDraft RichText).Respects R R := by
  apply respects_each
  intro segment
  cases segment with
  | literal text => exact respects_pure _
  | reference name => exact respects_map _ (respects_refer _)

theorem respects_nextQuantity : nextQuantity.Respects SameAhead SameAhead := by
  refine respects_bind (respects_read respects_next) fun token => ?_
  split
  · exact respects_map _ (respects_refer _)
  · split
    · exact respects_pure _
    · exact respects_read (respects_failHere sameOrigin_sameAhead _)

theorem respects_stack (entry : String) : (stack entry).Respects SameAhead SameAhead := by
  unfold stack
  split
  · exact respects_map _ (respects_refer _)
  · split
    · exact respects_map _ (respects_refer _)
    · exact respects_read (respects_failHere sameOrigin_sameAhead _)

theorem respects_nextStacks : nextStacks.Respects SameAhead SameAhead := by
  refine respects_bind (respects_read respects_nextList) fun entries => ?_
  split
  · exact respects_read (respects_failHere sameOrigin_sameAhead _)
  · exact respects_each respects_stack _

/-- A keyword's draft, or a refusal where its integration is missing. -/
theorem respects_given {present : Bool} {feature : String} {draft : LineDraft α}
    (h : draft.Respects R R') : (Vocabulary.given present feature draft).Respects R R' := by
  unfold Vocabulary.given
  split
  · exact h
  · exact respects_fail _

end Draft

/-! ### The built-in keywords -/

namespace Vocabulary

open Draft

variable {i : Integrations} {keyword : String} {others : List String}

/-- The keys that the keyword of an event asks for itself. -/
def ownKeys (keyword : String) : List String :=
  if keyword = "folder" then ["delay"] else if keyword = "notify" then ["io"] else []

/-- The keys of the arguments that may stand anywhere in a line. -/
def keys : Kind → String → List String
  | .event, keyword => "conditions" :: ownKeys keyword
  | .objective, _ => ["conditions", "events"]
  | _, _ => []

theorem respects_delay : delay.Respects (Differ keyword ["delay"]) (Differ keyword []) := by
  refine Line.respects_bind respects_optional fun value => ?_
  cases value with
  | none => exact Line.respects_pure _
  | some raw =>
    dsimp only
    split
    · exact Line.respects_pure _
    · exact respects_failHere sameOrigin_differ _

theorem respects_channel : channel.Respects (Differ keyword ["io"]) (Differ keyword []) := by
  refine Line.respects_bind respects_optional fun value => ?_
  cases value with
  | none => exact Line.respects_pure _
  | some raw => exact respects_choice sameOrigin_differ raw

theorem respects_folder : folder.Respects (Differ keyword ["delay"]) SameAhead := by
  refine respects_bind (respects_read respects_delay) fun ticks => ?_
  refine Respects.mono (R := SameAhead) ?_ fun l l' h => h.sameAhead
  refine respects_bind (respects_read respects_nextList) fun raws => ?_
  exact respects_map _ (respects_each (f := event) (fun raw => respects_refer (.event raw)) raws)

theorem respects_notify : notify.Respects (Differ keyword ["io"]) SameAhead := by
  refine respects_bind (respects_read respects_channel) fun place => ?_
  refine Respects.mono (R := SameAhead) ?_ fun l l' h => h.sameAhead
  refine respects_bind (respects_read respects_rest) fun message => ?_
  exact respects_map _ (respects_richText message)

theorem respects_lever : lever.Respects SameAhead SameAhead :=
  respects_bind (respects_read respects_nextLocation) fun _ =>
    respects_bind (respects_read respects_nextChoice) fun _ => respects_pure _

theorem respects_changeObjective : changeObjective.Respects SameAhead SameAhead :=
  respects_bind (respects_read respects_nextChoice) fun _ =>
    respects_bind (respects_read respects_next) fun _ => respects_map _ (respects_refer _)

theorem respects_arrow : arrow.Respects SameAhead SameAhead :=
  respects_bind (respects_read respects_nextLocation) fun _ => respects_map _ respects_nextQuantity

theorem respects_reach : reach.Respects SameAhead SameAhead :=
  respects_bind (respects_read respects_nextLocation) fun _ => respects_map _ respects_nextQuantity

theorem respects_kill : kill.Respects SameAhead SameAhead := by
  refine respects_bind (respects_read respects_nextList) fun entities => ?_
  split
  · exact respects_fail _
  · exact respects_bind (respects_read respects_nextPositive) fun amount => respects_pure _

/-- The draft of a keyword goes the same way from both lines, if each draft of the table does that
the keyword may lead to. -/
theorem respects_byKeyword {α : Type} {k : Kind} {drafts : List (String × LineDraft α)}
    {R R' : Line → Line → Prop} (hR : ∀ l l', R l l' → l.keyword = keyword ∧ l'.keyword = keyword)
    (h : ∀ draft, (keyword, draft) ∈ drafts → draft.Respects R R') :
    (Registry.byKeyword k (.ofList drafts)).Respects R R' := by
  intro l l' hl
  obtain ⟨hleft, hright⟩ := hR l l' hl
  unfold Registry.byKeyword
  rw [hleft, hright]
  cases hfind : (Table.ofList drafts).find? keyword with
  | none => exact .fail rfl
  | some draft => exact h draft (Table.mem_of_find?_ofList hfind) l l' hl

/-- A line is refused for its keyword alone. -/
theorem respects_known {α : Type} {k : Kind} {drafts : Table String (LineDraft α)} :
    (Registry.known k drafts).Respects (Differ keyword others) (Differ keyword others) := by
  intro l l' hl
  unfold Registry.known
  rw [hl.keyword_left, hl.keyword_right]
  split
  · exact .done hl
  · exact .fail rfl

theorem respects_gate :
    Registry.gate.Respects (Differ keyword ("conditions" :: others)) (Differ keyword others) :=
  respects_bind (respects_read respects_optionalList) fun raws =>
    respects_each (f := condition) (fun raw => respects_refer (.condition raw)) raws

/-- The action of an event, by its keyword. -/
theorem respects_action : (Registry.byKeyword .event (registry i).events).Respects
    (Differ keyword (ownKeys keyword)) SameAhead := by
  -- Where a keyword has no keys of its own, the same is ahead in both lines before it reads
  -- anything.
  have hplain {draft : LineDraft Action} (hkeys : ownKeys keyword = [])
      (h : draft.Respects SameAhead SameAhead) :
      draft.Respects (Differ keyword (ownKeys keyword)) SameAhead := by
    rw [hkeys]
    exact h.mono fun l l' hl => hl.sameAhead
  apply respects_byKeyword fun l l' h => ⟨h.keyword_left, h.keyword_right⟩
  intro draft hmem
  simp only [List.mem_cons, Prod.mk.injEq, List.not_mem_nil, or_false] at hmem
  rcases hmem with ⟨rfl, rfl⟩ | ⟨rfl, rfl⟩ | ⟨rfl, rfl⟩ | ⟨rfl, rfl⟩ | ⟨rfl, rfl⟩ | ⟨rfl, rfl⟩ |
    ⟨rfl, rfl⟩
  · exact hplain rfl respects_lever
  · exact respects_folder
  · exact hplain rfl respects_changeObjective
  · exact respects_notify
  · exact hplain rfl (respects_map _ respects_nextStacks)
  · exact hplain rfl (respects_map _ respects_nextStacks)
  · exact hplain rfl (respects_given (respects_map _ respects_nextQuantity))

/-- The goal of an objective, by its keyword. -/
theorem respects_goal : (Registry.byKeyword .objective (registry i).goals).Respects
    (Differ keyword []) SameAhead := by
  apply respects_byKeyword fun l l' h => ⟨h.keyword_left, h.keyword_right⟩
  intro draft hmem
  refine Respects.mono (R := SameAhead) ?_ fun l l' hl => hl.sameAhead
  simp only [List.mem_cons, Prod.mk.injEq, List.not_mem_nil, or_false] at hmem
  rcases hmem with ⟨-, rfl⟩ | ⟨-, rfl⟩ | ⟨-, rfl⟩
  · exact respects_arrow
  · exact respects_reach
  · exact respects_kill

theorem respects_event :
    (registry i).event.Respects (Differ keyword (Vocabulary.keys .event keyword)) SameAhead :=
  respects_bind respects_known fun _ => respects_bind respects_gate fun _ =>
    respects_bind respects_action fun _ => respects_pure _

theorem respects_objective (id : ObjectId) :
    ((registry i).objective id).Respects (Differ keyword (Vocabulary.keys .objective keyword))
      SameAhead := by
  refine respects_bind respects_known fun _ => respects_bind respects_gate fun _ => ?_
  refine respects_bind (respects_read respects_optionalList) fun raws => ?_
  refine respects_bind (respects_each (f := event) (fun raw => respects_refer (.event raw)) raws)
    fun _ => ?_
  exact respects_bind respects_goal fun goal => respects_pure _

end Vocabulary

/-! ### Lines of packages -/

/-- Two writings of the line of a definition, of which one has the keyed arguments of the other in
other places. -/
def Arranged (k : Kind) (raw raw' : String) : Prop :=
  ∃ keyword ts ts', Line.tokenize raw = .ok (keyword :: ts) ∧
    Line.tokenize raw' = .ok (keyword :: ts') ∧ Rearranged (Vocabulary.keys k keyword) ts ts'

/-- Packages in which keyed arguments of events and objectives stand in other places. -/
structure Sources.Arranged (s s' : Sources) : Prop where
  declares : ∀ k id, s.declares k id = s'.declares k id
  line : ∀ k id, s.line? k id = s'.line? k id ∨
    ∃ raw raw', s.line? k id = some raw ∧ s'.line? k id = some raw' ∧
      (k = .event ∨ k = .objective) ∧ Questbook.Arranged k raw raw'
  conversation : ∀ id, s.conversation? id = s'.conversation? id

section

variable {k : Kind} {id : ObjectId} {raw raw' : String} {sources sources' : Sources}
  {i : Integrations}

/-- Of a line that nobody has read everything behind the keyword is unread. -/
theorem unread_fresh (ts : List String) (keyword : String) :
    (⟨id, raw, keyword, ts.map fun t => ⟨t, false⟩, 0⟩ : Line).unread = ts := by
  show ((ts.map fun t => (⟨t, false⟩ : Argument)).filter fun a => !a.taken).map Argument.text = ts
  rw [List.filter_eq_self.2, List.map_map]
  · exact List.map_id ts
  · intro a ha
    obtain ⟨t, -, rfl⟩ := List.mem_map.1 ha
    rfl

theorem Arranged.exists_differ (h : Arranged k raw raw') (id : ObjectId) :
    ∃ keyword l l', Line.parse id raw = .ok l ∧ Line.parse id raw' = .ok l' ∧
      Differ keyword (Vocabulary.keys k keyword) l l' := by
  obtain ⟨keyword, ts, ts', hts, hts', harranged⟩ := h
  refine ⟨keyword, ⟨id, raw, keyword, ts.map fun t => ⟨t, false⟩, 0⟩,
    ⟨id, raw', keyword, ts'.map fun t => ⟨t, false⟩, 0⟩, ?_, ?_, rfl, rfl, rfl, rfl, rfl, ?_⟩
  · rw [Line.parse, hts]
  · rw [Line.parse, hts']
  · rwa [unread_fresh, unread_fresh]

/-- The plans for the two writings go the same way, if the draft does that reads them. -/
theorem Arranged.linePlan_matches {α : Type} {draft : LineDraft α} (h : Arranged k raw raw')
    (id : ObjectId)
    (hdraft : ∀ keyword, draft.Respects (Differ keyword (Vocabulary.keys k keyword)) SameAhead) :
    (linePlan id raw draft).Matches (fun _ _ => True) (linePlan id raw' draft) := by
  obtain ⟨keyword, l, l', hl, hl', hdiffer⟩ := h.exists_differ id
  unfold linePlan
  rw [hl, hl']
  exact (hdraft keyword l l' hdiffer).forget

/-- In packages that differ so, the plans to build a definition go the same way. -/
theorem Sources.Arranged.rel_blueprint? (h : sources.Arranged sources') (k : Kind) (id : ObjectId) :
    Option.Rel (fun b b' => b.2.Matches (fun _ _ => True) b'.2)
      (blueprint? (Vocabulary.registry i) sources k id)
      (blueprint? (Vocabulary.registry i) sources' k id) := by
  rcases h.line k id with hline | ⟨raw, raw', hraw, hraw', rfl | rfl, harranged⟩
  · have hsame : blueprint? (Vocabulary.registry i) sources k id =
        blueprint? (Vocabulary.registry i) sources' k id := by
      cases k <;> simp only [blueprint?, hline, h.conversation]
    rw [hsame]
    cases blueprint? (Vocabulary.registry i) sources' k id with
    | none => exact .none
    | some b => exact .some (Plan.Matches.refl b.2)
  · show Option.Rel _ ((sources.line? .event id).map _) ((sources'.line? .event id).map _)
    rw [hraw, hraw']
    exact .some (harranged.linePlan_matches id fun _ => Vocabulary.respects_event)
  · show Option.Rel _ ((sources.line? .objective id).map _) ((sources'.line? .objective id).map _)
    rw [hraw, hraw']
    exact .some (harranged.linePlan_matches id fun _ => Vocabulary.respects_objective id)

theorem Sources.Arranged.grounded_eq (h : sources.Arranged sources') :
    grounded (Vocabulary.registry i) sources = grounded (Vocabulary.registry i) sources' := by
  have hgrow : grow (Vocabulary.registry i) sources = grow (Vocabulary.registry i) sources' := by
    ext S k id d
    have hplan {plan : Plan Unit k.Def} :
        plan.Succeeds sources id.package S d ↔ plan.Succeeds sources' id.package S d :=
      ⟨fun hs => hs.of_declares h.declares,
        fun hs => hs.of_declares fun k id => (h.declares k id).symm⟩
    have hrel := h.rel_blueprint? (i := i) k id
    show (∃ line plan, blueprint? _ sources k id = some (line, plan) ∧ _) ↔
      ∃ line plan, blueprint? _ sources' k id = some (line, plan) ∧ _
    generalize blueprint? (Vocabulary.registry i) sources k id = b at hrel ⊢
    generalize blueprint? (Vocabulary.registry i) sources' k id = b' at hrel ⊢
    cases hrel with
    | none => simp
    | @some b b' hmatches =>
      constructor
      · rintro ⟨line, plan, heq, hs⟩
        cases heq
        exact ⟨b'.1, b'.2, rfl, hmatches.succeeds_iff.1 (hplan.1 hs)⟩
      · rintro ⟨line, plan, heq, hs⟩
        cases heq
        exact ⟨b.1, b.2, rfl, hmatches.succeeds_iff.2 (hplan.2 hs)⟩
  unfold grounded
  rw [hgrow]

/-- **Keyed arguments stand anywhere in a line.**

Let the line of an event or of an objective be written in two ways, with `conditions:`, `events:`
(for an objective), `delay:` (for a `folder`) and `io:` (for a `notify`) in other places behind the
keyword.

* Whatever the packages are and whatever is built already, both lines make the same definition or
  fail in the same way, with errors that differ at most in the token that they name; and on the way
  the same definitions are built and refused.
* Compiled with the one or the other, packages have the same definitions, and the same ones are
  broken.
-/
theorem keyed_stand_anywhere (i : Integrations) :
    (∀ raw raw', Arranged .event raw raw' → ∀ id sources package builder w,
      let built := (linePlan id raw (Vocabulary.registry i).event).run sources package builder w
      let built' := (linePlan id raw' (Vocabulary.registry i).event).run sources package builder w
      SameUnplaced built.1 built'.1 ∧ built.2.2 = built'.2.2) ∧
    (∀ raw raw', Arranged .objective raw raw' → ∀ id sources package builder w,
      let built :=
        (linePlan id raw ((Vocabulary.registry i).objective id)).run sources package builder w
      let built' :=
        (linePlan id raw' ((Vocabulary.registry i).objective id)).run sources package builder w
      SameUnplaced built.1 built'.1 ∧ built.2.2 = built'.2.2) ∧
    ∀ sources sources', Sources.Arranged sources sources' → ∀ k id,
      (Packages.compile (Vocabulary.registry i) sources).built.find? k id =
        (Packages.compile (Vocabulary.registry i) sources').built.find? k id ∧
      (Packages.compile (Vocabulary.registry i) sources).isBroken k id =
        (Packages.compile (Vocabulary.registry i) sources').isBroken k id := by
  refine ⟨fun raw raw' h id sources package builder w => ?_,
    fun raw raw' h id sources package builder w => ?_, fun sources sources' h k id => ?_⟩
  · exact (h.linePlan_matches id fun _ => Vocabulary.respects_event).run sources package builder w
  · exact (h.linePlan_matches id fun _ => Vocabulary.respects_objective id).run sources package
      builder w
  · exact compile_eq_of_grounded_eq (h.declares k id) (by rw [h.grounded_eq])

end

/-! ### A hall -/

/-- A hall where a bell is rung, in a given way, and wolves are hunted. -/
def hall (bell hunt : String) : Sources where
  packages := (∅ : Table String PackageSource).insert "hall" { PackageSource.empty with
    conditions := .ofList [("calm", "sneak")]
    events := .ofList [("bell", bell)]
    objectives := .ofList [("hunt", hunt)] }

section

variable {bell bell' hunt hunt' : String} {k : Kind} {id : ObjectId}

theorem hall_line? : (hall bell hunt).line? k id =
    if "hall" = id.package then
      if k = .condition ∧ "calm" = id.name then some "sneak"
      else if k = .event ∧ "bell" = id.name then some bell
      else if k = .objective ∧ "hunt" = id.name then some hunt
      else none
    else none := by
  unfold Sources.line? hall
  by_cases hpackage : "hall" = id.package
  · cases k <;>
      simp [hpackage, PackageSource.lines, PackageSource.empty, Table.ofList, Table.find?_insert]
  · simp [hpackage, Table.find?_insert]

theorem hall_arranged (hbell : Arranged .event bell bell')
    (hhunt : Arranged .objective hunt hunt') : (hall bell hunt).Arranged (hall bell' hunt') where
  declares k id := by
    unfold Sources.declares hall
    by_cases hpackage : "hall" = id.package
    · cases k <;>
        simp [hpackage, PackageSource.declares, PackageSource.lines, PackageSource.empty,
          Table.ofList, Table.contains, Table.find?_insert]
      all_goals grind
    · simp [hpackage, Table.find?_insert]
  line k id := by
    rw [hall_line?, hall_line?]
    grind
  conversation id := by
    unfold Sources.conversation? hall
    by_cases hpackage : "hall" = id.package
    · simp [hpackage, PackageSource.empty]
    · simp [hpackage, Table.find?_insert]

end

/-- A hall where the keyed arguments come first. -/
abbrev keysFirst : Sources := hall "notify conditions:calm io:chat the bell rings"
  "mobkill events:bell conditions:!calm wolf,bear 3"

/-- The same hall with the keyed arguments in other places. -/
abbrev keysAbout : Sources := hall "notify the io:chat bell rings conditions:calm"
  "mobkill conditions:!calm wolf,bear events:bell 3"

theorem keysFirst_arranged : keysFirst.Arranged keysAbout := by
  refine hall_arranged ?_ ?_
  · exact ⟨"notify", ["conditions:calm", "io:chat", "the", "bell", "rings"],
      ["the", "io:chat", "bell", "rings", "conditions:calm"], by decide +kernel, by decide +kernel,
      by decide +kernel, by decide +kernel, by decide +kernel⟩
  · exact ⟨"mobkill", ["events:bell", "conditions:!calm", "wolf,bear", "3"],
      ["conditions:!calm", "wolf,bear", "events:bell", "3"], by decide +kernel, by decide +kernel,
      by decide +kernel, by decide +kernel, by decide +kernel⟩

theorem compile_keysFirst : Packages.compile (Vocabulary.registry ⟨true, true⟩) keysFirst =
    compileWithin (Vocabulary.registry ⟨true, true⟩) keysFirst 4 :=
  (compileWithin_eq (show 3 < 4 by decide) (by decide)).symm

/-- The bell and the hunt are built, and they are the same where the keyed arguments stand in other
places.  A bell that is to ring `soon` fails in the same way on both sides of what it rings. -/
theorem keyed_stand_anywhere_of_hall :
    keysFirst.Arranged keysAbout ∧
    ((Packages.compile (Vocabulary.registry ⟨true, true⟩) keysFirst).built.find? .event
      ⟨"hall", "bell"⟩).isSome ∧
    (Packages.compile (Vocabulary.registry ⟨true, true⟩) keysFirst).built.find? .event
        ⟨"hall", "bell"⟩ =
      (Packages.compile (Vocabulary.registry ⟨true, true⟩) keysAbout).built.find? .event
        ⟨"hall", "bell"⟩ ∧
    ((Packages.compile (Vocabulary.registry ⟨true, true⟩) keysFirst).built.find? .objective
      ⟨"hall", "hunt"⟩).isSome ∧
    (Packages.compile (Vocabulary.registry ⟨true, true⟩) keysFirst).built.find? .objective
        ⟨"hall", "hunt"⟩ =
      (Packages.compile (Vocabulary.registry ⟨true, true⟩) keysAbout).built.find? .objective
        ⟨"hall", "hunt"⟩ ∧
    Arranged .event "folder delay:soon bell" "folder bell delay:soon" ∧
    SameUnplaced
      ((linePlan ⟨"hall", "late"⟩ "folder delay:soon bell"
        (Vocabulary.registry ⟨true, true⟩).event).run keysFirst "hall"
        (build (Vocabulary.registry ⟨true, true⟩) keysFirst []) Workshop.empty).1
      ((linePlan ⟨"hall", "late"⟩ "folder bell delay:soon"
        (Vocabulary.registry ⟨true, true⟩).event).run keysFirst "hall"
        (build (Vocabulary.registry ⟨true, true⟩) keysFirst []) Workshop.empty).1 := by
  obtain ⟨hevent, -, hcompile⟩ := keyed_stand_anywhere ⟨true, true⟩
  have hlate : Arranged .event "folder delay:soon bell" "folder bell delay:soon" :=
    ⟨"folder", ["delay:soon", "bell"], ["bell", "delay:soon"], by decide +kernel, by decide +kernel,
      by decide +kernel, by decide +kernel, by decide +kernel⟩
  refine ⟨keysFirst_arranged, ?_, (hcompile _ _ keysFirst_arranged _ _).1, ?_,
    (hcompile _ _ keysFirst_arranged _ _).1, hlate, (hevent _ _ hlate _ _ _ _ _).1⟩
  · rw [compile_keysFirst]
    decide +kernel
  · rw [compile_keysFirst]
    decide +kernel

end Questbook
