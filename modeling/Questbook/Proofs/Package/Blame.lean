/-
Questbook/Proofs/Package/Blame.lean

What an error in a line quotes, and at which token.

When a number, a choice or a location is refused, the error quotes a text and names a token.  A
positional argument is refused right after it has been handed out, so that the error names its
position, and quotes it or the part of it that was being read (`Line.Blames.positional`).

There are exceptions.  `delay:` and `io:` are read before anything positional has been handed out,
and their errors name token zero, which is the keyword, wherever the argument stands
(`Line.Blames.keyed`).  And where a number is refused for its value it is not quoted as it is
written: zero is quoted as `0`, an infinite number by its value (`Refused.zero`,
`Refused.infinite`).

Readers and drafts are described by what holds of the line before and after them, and of every error
that they raise.  What a reader needs to know of the line is whether nothing positional has been
handed out (`Line.Fresh`), or which token was handed out last (`Line.At`).

Main results: `quoted_tokens_refused`, `quoted_not_in_named_token`.
-/
import Questbook.Proofs.Line.Arguments
import Questbook.Proofs.Line.Grammar
import Questbook.Proofs.Package.Compile
import Questbook.Proofs.Package.Vocabulary

namespace Questbook

open Line

/-! ### What is refused -/

/-- The text that a problem quotes, if it is about a number, a choice or a location. -/
def LineProblem.quoted? : LineProblem → Option String
  | invalidNumber token _ => some token
  | invalidChoice token _ => some token
  | invalidLocation token _ => some token
  | _ => none

/-- A token is not what it should be, and a problem tells so. -/
inductive Refused (token : String) : LineProblem → Prop
  | positive (h : Decimal.unsigned? Decimal.maxUnsigned32 token = none) :
      Refused token (.invalidNumber token "positive integer")
  | zero (h : Decimal.unsigned? Decimal.maxUnsigned32 token = some 0) :
      Refused token (.invalidNumber "0" "positive integer")
  | number (h : Decimal.real? token = none) : Refused token (.invalidNumber token "number")
  | infinite {x : Float} (h : Decimal.real? token = some x) (hx : x.isFinite = false) :
      Refused token (.invalidNumber (Decimal.plain x) "finite number")
  | quantity (hname : Draft.percentName? token = none) (h : Decimal.finite? token = none) :
      Refused token (.invalidNumber token "number or %variable%")
  | amount {entry name amount : String} (hentry : entry ∈ Text.listed token)
      (hcut : Text.cut ':' entry = some (name, amount))
      (h : ∀ n, Decimal.unsigned? Decimal.maxUnsigned32 amount = some n → n = 0) :
      Refused token (.invalidNumber amount "positive item amount")
  | choice {α : Type} [Choice α] (h : (Choice.ofName? token : Option α) = none) :
      Refused token (.invalidChoice token (Choice.names α))
  | location {reason : String} (h : Location.parse token = .error reason) :
      Refused token (.invalidLocation token reason)

/-- The value of a keyed argument is not what a keyword asks for, and a problem tells so. -/
inductive ValueRefused (value : String) : (keyword key : String) → LineProblem → Prop
  | delay (h : Decimal.unsigned? Decimal.maxUnsigned64 value = none) :
      ValueRefused value "folder" "delay" (.invalidNumber value "tick count")
  | channel (h : (Choice.ofName? value : Option Channel) = none) :
      ValueRefused value "notify" "io" (.invalidChoice value (Choice.names Channel))

/-- What an error is about, by the line as it was before anything was read and by the line as it is
left. -/
inductive Line.Blames (l l' : Line) (e : LineError) : Prop
  /-- It is about the token handed out last, at whose position it is. -/
  | positional {token : String} (hpos : 0 < e.index) (hcursor : l'.cursor = e.index)
      (htoken : l.tokens[e.index]? = some token) (h : Refused token e.problem)
  /-- It is about a keyed argument, while it is itself at the keyword. -/
  | keyed {i : Nat} {token key value : String} (hindex : e.index = 0) (hcursor : l'.cursor = 0)
      (hi : 0 < i) (htoken : l.tokens[i]? = some token) (hvalue : valueOf? key token = some value)
      (h : ValueRefused value l.keyword key e.problem)

namespace Line

variable {l₀ l l' : Line} {token key : String} {problem : LineProblem} {i : Nat}

/-- A line of which nothing positional has been handed out. -/
structure Fresh (l₀ l : Line) : Prop where
  alike : l₀.Alike l
  cursor : l.cursor = 0

/-- A line of which a token was handed out last. -/
structure At (l₀ : Line) (token : String) (l : Line) : Prop where
  alike : l₀.Alike l
  pos : 0 < l.cursor
  token : l₀.tokens[l.cursor]? = some token

/-- A token of a line has a key, with a value. -/
def HasValue (l₀ : Line) (key value : String) : Prop :=
  ∃ (i : Nat) (token : String), 0 < i ∧ l₀.tokens[i]? = some token ∧ valueOf? key token = some value

/-- An error of a line is about it, and blames what it quotes. -/
structure Faults (l₀ : Line) (e : LineError) (l : Line) : Prop where
  origin : e.origin = l₀.origin
  blames : e.problem.quoted?.isSome → l₀.Blames l e

/-- What is free can be found among the tokens. -/
theorem Alike.getElem?_of_mem_free (h : l₀.Alike l) {a : Nat × String} (ha : a ∈ l.free) :
    l₀.tokens[a.1]? = some a.2 := by
  rw [← h.2]
  exact (getElem?_tokens_of_mem_free ha).2

/-- An error that quotes nothing may be anywhere. -/
theorem Alike.faults (h : l₀.Alike l) (hquiet : problem.quoted? = none) :
    l₀.Faults (l.errorAt i problem) l where
  origin := h.1
  blames hquoted := by
    rw [show (l.errorAt i problem).problem = problem from rfl, hquiet] at hquoted
    cases hquoted

/-- An error at the token handed out last blames that token. -/
theorem At.faults (h : l₀.At token l) (hrefused : Refused token problem) :
    l₀.Faults (l.errorHere problem) l where
  origin := h.alike.1
  blames _ := .positional h.pos rfl h.token hrefused

/-- An error that is raised before anything is handed out is at the keyword. -/
theorem Fresh.faults {value : String} (h : l₀.Fresh l) (hvalue : l₀.HasValue key value)
    (hrefused : ValueRefused value l₀.keyword key problem) :
    l₀.Faults (l.errorHere problem) l where
  origin := h.alike.1
  blames _ := by
    obtain ⟨i, token, hi, htoken, hvalue⟩ := hvalue
    exact .keyed h.cursor h.cursor hi htoken hvalue hrefused

/-! ### Readers -/

/-- What a reader comes to: an answer, with `Q` of it and of the line that is left, or an error of
the line. -/
inductive Outcome {α : Type} (l₀ : Line) (Q : α → Line → Prop) : Except LineError α × Line → Prop
  | ok {a : α} {l : Line} (h : Q a l) : Outcome l₀ Q (.ok a, l)
  | error {e : LineError} {l : Line} (h : l₀.Faults e l) : Outcome l₀ Q (.error e, l)

/-- A reader comes to `Q` from every line with `P`. -/
def Meets {α : Type} (l₀ : Line) (P : Line → Prop) (r : Reader α) (Q : α → Line → Prop) : Prop :=
  ∀ l, P l → l₀.Outcome Q (l.read r)

section

variable {α β : Type} {P : Line → Prop} {Q : α → Line → Prop} {Q' : β → Line → Prop}

theorem meets_pure {a : α} (h : ∀ l, P l → Q a l) : l₀.Meets P (pure a) Q :=
  fun l hl => .ok (h l hl)

theorem meets_bind {r : Reader α} {f : α → Reader β} (hr : l₀.Meets P r Q)
    (hf : ∀ a, l₀.Meets (Q a) (f a) Q') : l₀.Meets P (r >>= f) Q' := by
  intro l hl
  have houtcome := hr l hl
  rw [read_bind]
  generalize l.read r = x at houtcome ⊢
  cases houtcome with
  | ok h => exact hf _ _ h
  | error h => exact .error h

theorem meets_failHere (h : ∀ l, P l → l₀.Faults (l.errorHere problem) l) :
    l₀.Meets P (failHere problem) Q :=
  fun l hl => .error (h l hl)

theorem Meets.weaken {r : Reader α} (h : l₀.Meets P r Q) {R : α → Line → Prop}
    (hQ : ∀ a l, Q a l → R a l) : l₀.Meets P r R := by
  intro l hl
  have houtcome := h l hl
  generalize l.read r = x at houtcome ⊢
  cases houtcome with
  | ok h => exact .ok (hQ _ _ h)
  | error h => exact .error h

theorem meets_next : l₀.Meets l₀.Alike next l₀.At := by
  intro l hl
  rw [read_next]
  match hahead : l.ahead with
  | [] => exact .error (hl.faults rfl)
  | a :: more =>
    have hfree : a ∈ l.free := (List.mem_filter.1 (hahead ▸ List.mem_cons_self)).1
    have hmoved : l.Alike (l.moveTo a.1) := ⟨rfl, (alike_mark (l := l) a.1).2⟩
    exact .ok ⟨hl.trans hmoved, pos_of_mem_free hfree, hl.getElem?_of_mem_free hfree⟩

/-- A reader of one argument refuses what it cannot read. -/
theorem meets_nextAs {expected : String} {f : String → Option α}
    (h : ∀ token, f token = none → Refused token (.invalidNumber token expected)) :
    l₀.Meets l₀.Alike (nextAs expected f) fun a l => ∃ token, f token = some a ∧ l₀.At token l := by
  refine meets_bind meets_next fun token => ?_
  cases hf : f token with
  | none => exact meets_failHere fun l hl => hl.faults (h token hf)
  | some a => exact meets_pure fun l hl => ⟨token, hf, hl⟩

theorem meets_nextPositive : l₀.Meets l₀.Alike nextPositive fun _ => l₀.Alike := by
  refine meets_bind (meets_nextAs fun token h => .positive h) fun n => ?_
  split
  · rename_i hzero
    apply meets_failHere
    rintro l ⟨token, htoken, hl⟩
    exact hl.faults (.zero (hzero ▸ htoken))
  · apply meets_pure
    rintro l ⟨token, -, hl⟩
    exact hl.alike

theorem meets_nextNumber : l₀.Meets l₀.Alike nextNumber fun _ => l₀.Alike := by
  refine meets_bind (meets_nextAs fun token h => .number h) fun x => ?_
  split
  · apply meets_pure
    rintro l ⟨token, -, hl⟩
    exact hl.alike
  · rename_i hinfinite
    apply meets_failHere
    rintro l ⟨token, htoken, hl⟩
    exact hl.faults (.infinite htoken (Bool.eq_false_iff.2 hinfinite))

theorem meets_nextChoice [Choice α] :
    l₀.Meets l₀.Alike (nextChoice : Reader α) fun _ => l₀.Alike := by
  refine meets_bind meets_next fun token => ?_
  unfold choice
  cases hchoice : (Choice.ofName? token : Option α) with
  | none => exact meets_failHere fun l hl => hl.faults (.choice hchoice)
  | some a => exact meets_pure fun l hl => hl.alike

theorem meets_nextLocation : l₀.Meets l₀.Alike nextLocation fun _ => l₀.Alike := by
  refine meets_bind meets_next fun token => ?_
  cases hlocation : Location.parse token with
  | ok spot => exact meets_pure fun l hl => hl.alike
  | error reason => exact meets_failHere fun l hl => hl.faults (.location hlocation)

theorem meets_nextList : l₀.Meets l₀.Alike nextList fun entries l =>
    ∃ token, entries = Text.listed token ∧ l₀.At token l := by
  show l₀.Meets _ (next >>= fun token => pure (Text.listed token)) _
  exact meets_bind meets_next fun token => meets_pure fun l hl => ⟨token, rfl, hl⟩

/-- Whoever refuses nothing of what it reads need not know which token it was. -/
theorem meets_name : l₀.Meets l₀.Alike next fun _ => l₀.Alike :=
  meets_next.weaken fun _ _ h => h.alike

theorem meets_names : l₀.Meets l₀.Alike nextList fun _ => l₀.Alike :=
  meets_nextList.weaken fun _ _ ⟨_, _, h⟩ => h.alike

theorem meets_rest : l₀.Meets l₀.Alike rest fun _ => l₀.Alike := by
  intro l hl
  have hleft : l.Alike (l.ahead.foldl (fun l a => l.moveTo a.1) l) :=
    (foldl_moveTo fun a ha => pos_of_mem_free (List.mem_filter.1 ha).1).1
  rw [read_rest]
  split
  · refine .error ⟨hl.1, fun hquoted => ?_⟩
    cases hquoted
  · exact .ok (hl.trans hleft)

theorem alike_first (p : String → Bool) :
    l.Alike ((l.first p).foldl (fun l a => l.mark a.1) l) ∧
      ((l.first p).foldl (fun l a => l.mark a.1) l).cursor = l.cursor := by
  have hpos : ∀ a ∈ l.first p, 0 < a.1 := fun a ha =>
    pos_of_mem_free (List.mem_filter.1 (List.mem_of_mem_take ha)).1
  obtain ⟨halike, hcursor, -⟩ := foldl_mark (l := l) hpos
  exact ⟨halike, hcursor⟩

theorem meets_flag (word : String) : l₀.Meets l₀.Alike (flag word) fun _ => l₀.Alike := by
  intro l hl
  rw [read_flag]
  exact .ok (hl.trans (alike_first _).1)

/-- A keyed argument is taken from where it stands; what has been handed out last stays the same. -/
theorem meets_optional : l₀.Meets l₀.Fresh (optional key) fun value l =>
    l₀.Fresh l ∧ ∀ v, value = some v → l₀.HasValue key v := by
  intro l hl
  obtain ⟨halike, hcursor⟩ := alike_first (l := l) fun token => (valueOf? key token).isSome
  rw [read_optional]
  refine .ok ⟨⟨hl.alike.trans halike, hcursor.trans hl.cursor⟩, fun v hv => ?_⟩
  obtain ⟨a, ha, hvalue⟩ := Option.bind_eq_some_iff.1 hv
  have hfree : a ∈ l.free :=
    (List.mem_filter.1 (List.mem_of_mem_take (List.mem_of_head? ha))).1
  exact ⟨a.1, a.2, pos_of_mem_free hfree, hl.alike.getElem?_of_mem_free hfree, hvalue⟩

theorem meets_optionalList : l₀.Meets l₀.Fresh (optionalList key) fun _ => l₀.Fresh := by
  refine meets_bind meets_optional fun value => ?_
  cases value with
  | none => exact meets_pure fun l hl => hl.1
  | some value => exact meets_pure fun l hl => hl.1

end

end Line

/-! ### Plans and drafts -/

/-- Wherever a plan ends by itself, `Q` holds of its answer and of what it leaves, or `E` of its
failure. -/
def Plan.Ends {σ α : Type} (Q : α → σ → Prop) (E : BuildError → σ → Prop) : Plan σ α → Prop
  | .done a s => Q a s
  | .fail e s => E e s
  | .refer _ _ next => ∀ t, (next t).Ends Q E

namespace Plan.Ends

variable {σ α β : Type} {Q Q' : α → σ → Prop} {E : BuildError → σ → Prop} {R : β → σ → Prop}
  {plan : Plan σ α}

theorem bind {f : α → σ → Plan σ β} (h : plan.Ends Q E)
    (hf : ∀ a s, Q a s → (f a s).Ends R E) : (plan.bind f).Ends R E := by
  induction plan with
  | done a s => exact hf a s h
  | fail e s => exact h
  | refer r s next ih => exact fun t => ih t (h t)

theorem mono (h : plan.Ends Q E) (hQ : ∀ a s, Q a s → Q' a s) : plan.Ends Q' E := by
  induction plan with
  | done a s => exact hQ a s h
  | fail e s => exact h
  | refer r s next ih => exact fun t => ih t (h t)

/-- A plan that fails ends by itself, or at a reference that leads nowhere. -/
theorem of_run {sources : Sources} {package : String} {builder : Builder} {w w' : Workshop}
    {e : BuildError} {s : σ} (h : plan.Ends Q E)
    (hrun : plan.run sources package builder w = (.error e, s, w')) :
    (∃ missing, e = .notFound missing) ∨ E e s := by
  induction plan generalizing w with
  | done a s => cases hrun
  | fail e s =>
    cases hrun
    exact .inr h
  | refer r s next ih =>
    rw [Plan.run] at hrun
    split at hrun
    · exact ih _ (h _) hrun
    · cases hrun
      exact .inl ⟨_, rfl⟩

end Plan.Ends

namespace Draft

variable {α β γ : Type} {l₀ : Line} {P P' : Line → Prop} {Q : α → Line → Prop}
  {Q' : β → Line → Prop}

/-- From every line with `P` a draft comes to `Q`, or to an error of the line if it is one of a line
at all. -/
def Meets (l₀ : Line) (P : Line → Prop) (draft : LineDraft α) (Q : α → Line → Prop) : Prop :=
  ∀ l, P l → (draft l).Ends Q fun e l' => ∀ err, e = .parse err → l₀.Faults err l'

theorem Meets.weaken {draft : LineDraft α} (h : Meets l₀ P draft Q) {R : α → Line → Prop}
    (hP : ∀ l, P' l → P l) (hQ : ∀ a l, Q a l → R a l) : Meets l₀ P' draft R :=
  fun l hl => (h l (hP l hl)).mono hQ

/-- What can be read of any line of the same tokens can be read of a fresh one. -/
theorem Meets.of_alike {draft : LineDraft α} (h : Meets l₀ l₀.Alike draft Q) :
    Meets l₀ l₀.Fresh draft Q :=
  h.weaken (fun _ hl => hl.alike) fun _ _ h => h

theorem meets_pure {a : α} (h : ∀ l, P l → Q a l) : Meets l₀ P (pure a) Q :=
  fun l hl => h l hl

theorem meets_bind {draft : LineDraft α} {f : α → LineDraft β} (hd : Meets l₀ P draft Q)
    (hf : ∀ a, Meets l₀ (Q a) (f a) Q') : Meets l₀ P (draft >>= f) Q' :=
  fun l hl => (hd l hl).bind fun a l' hl' => hf a l' hl'

theorem meets_map {draft : LineDraft α} (f : α → β) (hd : Meets l₀ P draft fun _ => P') :
    Meets l₀ P (f <$> draft) fun _ => P' :=
  meets_bind hd fun _ => meets_pure fun _ hl => hl

theorem meets_fail {e : BuildError} (h : ∀ err, e ≠ .parse err) : Meets l₀ P (fail e) Q :=
  fun _ _ err herr => absurd herr (h err)

theorem meets_refer (r : Reference) : Meets l₀ P (refer r) fun _ => P :=
  fun _ hl _ => hl

theorem meets_each {f : γ → LineDraft α} {cs : List γ} (h : ∀ c ∈ cs, Meets l₀ P (f c) fun _ => P) :
    Meets l₀ P (each f cs) fun _ => P := by
  induction cs with
  | nil => exact meets_pure fun l hl => hl
  | cons c rest ih =>
    rw [List.forall_mem_cons] at h
    exact meets_bind h.1 fun _ => meets_bind (ih h.2) fun _ => meets_pure fun _ hl => hl

theorem meets_read {r : Reader α} (h : l₀.Meets P r Q) : Meets l₀ P (read r) Q := by
  intro l hl
  have houtcome := h l hl
  unfold read
  generalize l.read r = x at houtcome ⊢
  cases houtcome with
  | ok h => exact h
  | error h =>
    rintro err herr
    cases herr
    exact h

theorem meets_richText (raw : String) : Meets l₀ P (richText raw) fun _ => P := by
  apply meets_each
  intro segment _
  cases segment with
  | literal text => exact meets_pure fun l hl => hl
  | reference name => exact meets_map _ (meets_refer _)

theorem meets_nextQuantity : Meets l₀ l₀.Alike nextQuantity fun _ => l₀.Alike := by
  refine meets_bind (meets_read Line.meets_next) fun token => ?_
  cases hname : percentName? token with
  | some name =>
    exact meets_map _ ((meets_refer (.var name)).weaken (fun l hl => At.alike hl) fun _ _ h => h)
  | none =>
    cases hnumber : Decimal.finite? token with
    | some x => exact meets_pure fun l hl => hl.alike
    | none =>
      exact meets_read (meets_failHere fun l hl => hl.faults (.quantity hname hnumber))

theorem meets_stack {token entry : String} (hentry : entry ∈ Text.listed token) :
    Meets l₀ (l₀.At token) (stack entry) fun _ => l₀.At token := by
  unfold stack
  cases hcut : Text.cut ':' entry with
  | none => exact meets_map _ (meets_refer _)
  | some parts =>
    cases hamount : (Decimal.unsigned? Decimal.maxUnsigned32 parts.2).filter (0 < ·) with
    | some n =>
      simp only [hamount]
      exact meets_map _ (meets_refer _)
    | none =>
      have hzero : ∀ n, Decimal.unsigned? Decimal.maxUnsigned32 parts.2 = some n → n = 0 := by
        intro n hn
        rw [hn] at hamount
        simpa using hamount
      simp only [hamount]
      exact meets_read (meets_failHere fun l hl => hl.faults (.amount hentry hcut hzero))

theorem meets_nextStacks : Meets l₀ l₀.Alike nextStacks fun _ => l₀.Alike := by
  refine meets_bind (meets_read meets_nextList) fun entries => ?_
  split
  · apply meets_read
    apply meets_failHere
    rintro l ⟨token, -, hl⟩
    exact hl.alike.faults rfl
  · rintro l ⟨token, rfl, hl⟩
    refine (meets_each fun entry hentry => meets_stack hentry).weaken (fun _ h => h) ?_ l hl
    exact fun _ _ h => At.alike h

end Draft

/-! ### The built-in keywords -/

namespace Vocabulary

open Draft

variable {l₀ : Line}

theorem meets_facing : Meets l₀ l₀.Alike facing fun _ => l₀.Alike :=
  meets_map _ (meets_read meets_nextChoice)

theorem meets_compound (any : Bool) : Meets l₀ l₀.Alike (compound any) fun _ => l₀.Alike := by
  refine meets_bind (meets_read meets_names) fun raws => ?_
  exact meets_map _ (meets_each (f := condition) fun raw _ => meets_refer (.condition raw))

theorem meets_objectiveActive : Meets l₀ l₀.Alike objectiveActive fun _ => l₀.Alike := by
  refine meets_bind (meets_read meets_name) fun raw => ?_
  exact meets_map _ (meets_refer (.objective raw))

theorem meets_stat : Meets l₀ l₀.Alike stat fun _ => l₀.Alike := by
  refine meets_bind (meets_read meets_name) fun name => ?_
  refine meets_bind (meets_read meets_nextNumber) fun level => ?_
  exact meets_bind (meets_read (meets_flag "equal")) fun exactly => meets_pure fun l hl => hl

theorem meets_lever : Meets l₀ l₀.Alike lever fun _ => l₀.Alike :=
  meets_bind (meets_read meets_nextLocation) fun _ =>
    meets_bind (meets_read meets_nextChoice) fun _ => meets_pure fun _ hl => hl

/-- Ticks that cannot be read are refused while nothing positional has been handed out. -/
theorem meets_delay (hkeyword : l₀.keyword = "folder") :
    l₀.Meets l₀.Fresh delay fun _ => l₀.Fresh := by
  refine Line.meets_bind meets_optional fun value => ?_
  cases value with
  | none => exact Line.meets_pure fun l hl => hl.1
  | some raw =>
    cases hticks : Decimal.unsigned? Decimal.maxUnsigned64 raw with
    | some n =>
      simp only [hticks]
      exact Line.meets_pure fun l hl => hl.1
    | none =>
      simp only [hticks]
      apply meets_failHere
      rintro l ⟨hl, hvalue⟩
      exact hl.faults (hvalue raw rfl) (hkeyword ▸ .delay hticks)

theorem meets_folder (hkeyword : l₀.keyword = "folder") :
    Meets l₀ l₀.Fresh folder fun _ => l₀.Alike := by
  refine meets_bind (meets_read (meets_delay hkeyword)) fun ticks => ?_
  apply Meets.of_alike
  refine meets_bind (meets_read meets_names) fun raws => ?_
  exact meets_map _ (meets_each (f := event) fun raw _ => meets_refer (.event raw))

theorem meets_changeObjective : Meets l₀ l₀.Alike changeObjective fun _ => l₀.Alike := by
  refine meets_bind (meets_read meets_nextChoice) fun action => ?_
  refine meets_bind (meets_read meets_name) fun raw => ?_
  exact meets_map _ (meets_refer (.objective raw))

/-- So is a channel that has no such name. -/
theorem meets_channel (hkeyword : l₀.keyword = "notify") :
    l₀.Meets l₀.Fresh channel fun _ => l₀.Fresh := by
  refine Line.meets_bind meets_optional fun value => ?_
  cases value with
  | none => exact Line.meets_pure fun l hl => hl.1
  | some raw =>
    show l₀.Meets _ (choice raw) _
    unfold choice
    cases hchannel : (Choice.ofName? raw : Option Channel) with
    | some place => exact Line.meets_pure fun l hl => hl.1
    | none =>
      apply meets_failHere
      rintro l ⟨hl, hvalue⟩
      exact hl.faults (hvalue raw rfl) (hkeyword ▸ .channel hchannel)

theorem meets_notify (hkeyword : l₀.keyword = "notify") :
    Meets l₀ l₀.Fresh notify fun _ => l₀.Alike := by
  refine meets_bind (meets_read (meets_channel hkeyword)) fun place => ?_
  apply Meets.of_alike
  refine meets_bind (meets_read meets_rest) fun message => ?_
  exact meets_map _ (meets_richText message)

/-- `arrow` and `location` read a location and a quantity. -/
theorem meets_arrow : Meets l₀ l₀.Alike arrow fun _ => l₀.Alike :=
  meets_bind (meets_read meets_nextLocation) fun _ => meets_map _ meets_nextQuantity

theorem meets_reach : Meets l₀ l₀.Alike reach fun _ => l₀.Alike :=
  meets_bind (meets_read meets_nextLocation) fun _ => meets_map _ meets_nextQuantity

theorem meets_kill : Meets l₀ l₀.Alike kill fun _ => l₀.Alike := by
  refine meets_bind (meets_read meets_names) fun entities => ?_
  split
  · exact meets_fail fun err => nofun
  · exact meets_bind (meets_read meets_nextPositive) fun amount => meets_pure fun l hl => hl

theorem meets_balance : Meets l₀ l₀.Alike balance fun _ => l₀.Alike := by
  refine meets_bind (meets_read meets_name) fun token => ?_
  split
  · exact meets_pure fun l hl => hl
  · cases htarget : missingTarget? token with
    | some target => exact meets_pure fun l hl => hl
    | none => exact meets_read (meets_failHere fun l hl => hl.faults rfl)

theorem meets_objectiveProperty : Meets l₀ l₀.Alike objectiveProperty fun _ => l₀.Alike := by
  refine meets_bind (meets_read meets_name) fun raw => ?_
  refine meets_bind (meets_refer (.objective raw)) fun id => ?_
  exact meets_map _ (meets_read meets_name)

theorem meets_player : Meets l₀ l₀.Alike player fun _ => l₀.Alike :=
  meets_map _ (meets_read meets_nextChoice)

theorem meets_location : Meets l₀ l₀.Alike location fun _ => l₀.Alike := by
  have hbare : l₀.Meets l₀.Alike (do pure (← get).isBare) fun _ => l₀.Alike :=
    fun l hl => .ok hl
  refine meets_bind (meets_read hbare) fun bare => ?_
  split
  · exact meets_pure fun l hl => hl
  · exact meets_map _ (meets_read meets_nextChoice)

theorem meets_given {α : Type} {present : Bool} {feature : String} {draft : LineDraft α}
    {P : Line → Prop} {Q : α → Line → Prop} (h : Meets l₀ P draft Q) :
    Meets l₀ P (given present feature draft) Q := by
  unfold given
  split
  · exact h
  · exact meets_fail fun err => nofun

/-- A keyword's draft reads the line, if the keyword has one. -/
theorem meets_byKeyword {α : Type} {k : Kind} {drafts : List (String × LineDraft α)}
    {P : Line → Prop} {Q : α → Line → Prop} (hP : ∀ l, P l → l₀.Alike l)
    (h : ∀ draft, (l₀.keyword, draft) ∈ drafts → Meets l₀ P draft Q) :
    Meets l₀ P (Registry.byKeyword k (.ofList drafts)) Q := by
  intro l hl
  unfold Registry.byKeyword
  rw [(hP l hl).keyword_eq]
  cases hfind : (Table.ofList drafts).find? l₀.keyword with
  | none => exact nofun
  | some draft => exact h draft (Table.mem_of_find?_ofList hfind) l hl

theorem meets_known {α : Type} {k : Kind} {drafts : Table String (LineDraft α)}
    {P : Line → Prop} : Meets l₀ P (Registry.known k drafts) fun _ => P := by
  intro l hl
  unfold Registry.known
  split
  · exact hl
  · intro _ hquoted
    cases hquoted

theorem meets_gate : Meets l₀ l₀.Fresh Registry.gate fun _ => l₀.Fresh :=
  meets_bind (meets_read meets_optionalList) fun _ =>
    meets_each (f := condition) fun raw _ => meets_refer (.condition raw)

variable (i : Integrations)

theorem meets_condition : Meets l₀ l₀.Fresh (registry i).condition fun _ => l₀.Alike := by
  apply Meets.of_alike
  apply meets_byKeyword fun l hl => hl
  intro draft hmem
  simp only [List.mem_cons, Prod.mk.injEq, List.not_mem_nil, or_false] at hmem
  rcases hmem with ⟨-, rfl⟩ | ⟨-, rfl⟩ | ⟨-, rfl⟩ | ⟨-, rfl⟩ | ⟨-, rfl⟩ | ⟨-, rfl⟩ | ⟨-, rfl⟩ |
    ⟨-, rfl⟩ | ⟨-, rfl⟩
  · exact meets_pure fun l hl => hl
  · exact meets_facing
  · exact meets_compound false
  · exact meets_compound true
  · exact meets_map _ meets_nextStacks
  · exact meets_objectiveActive
  · exact meets_map _ meets_nextQuantity
  · exact meets_given meets_stat
  · exact meets_given (meets_map _ meets_nextQuantity)

theorem meets_event : Meets l₀ l₀.Fresh (registry i).event fun _ => l₀.Alike := by
  refine meets_bind meets_known fun _ => meets_bind meets_gate fun conditions => ?_
  refine meets_bind (meets_byKeyword (fun l hl => Fresh.alike hl) ?_) fun content =>
    meets_pure fun l hl => hl
  intro draft hmem
  simp only [List.mem_cons, Prod.mk.injEq, List.not_mem_nil, or_false] at hmem
  rcases hmem with ⟨-, rfl⟩ | ⟨hkeyword, rfl⟩ | ⟨-, rfl⟩ | ⟨hkeyword, rfl⟩ | ⟨-, rfl⟩ | ⟨-, rfl⟩ |
    ⟨-, rfl⟩
  -- Only `folder` and `notify` need a fresh line: they read an option before anything positional.
  · exact meets_lever.of_alike
  · exact meets_folder hkeyword
  · exact meets_changeObjective.of_alike
  · exact meets_notify hkeyword
  · exact (meets_map _ meets_nextStacks).of_alike
  · exact (meets_map _ meets_nextStacks).of_alike
  · exact (meets_given (meets_map _ meets_nextQuantity)).of_alike

theorem meets_objective (id : ObjectId) :
    Meets l₀ l₀.Fresh ((registry i).objective id) fun _ => l₀.Alike := by
  refine meets_bind meets_known fun _ => meets_bind meets_gate fun conditions => ?_
  refine meets_bind (meets_read meets_optionalList) fun raws => ?_
  refine meets_bind (meets_each (f := event) fun raw _ => meets_refer (.event raw)) fun events => ?_
  apply Meets.of_alike
  refine meets_bind (meets_byKeyword (fun l hl => hl) ?_) fun goal => meets_pure fun l hl => hl
  intro draft hmem
  simp only [List.mem_cons, Prod.mk.injEq, List.not_mem_nil, or_false] at hmem
  rcases hmem with ⟨-, rfl⟩ | ⟨-, rfl⟩ | ⟨-, rfl⟩
  · exact meets_arrow
  · exact meets_reach
  · exact meets_kill

theorem meets_var : Meets l₀ l₀.Fresh (registry i).var fun _ => l₀.Alike := by
  apply Meets.of_alike
  apply meets_byKeyword fun l hl => hl
  intro draft hmem
  simp only [List.mem_cons, Prod.mk.injEq, List.not_mem_nil, or_false] at hmem
  rcases hmem with ⟨-, rfl⟩ | ⟨-, rfl⟩ | ⟨-, rfl⟩ | ⟨-, rfl⟩
  · exact meets_given meets_balance
  · exact meets_objectiveProperty
  · exact meets_player
  · exact meets_location

end Vocabulary

/-! ### Lines of definitions -/

section

variable {id : ObjectId} {raw package : String} {sources : Sources} {builder : Builder}
  {w w' : Workshop}

/-- A line that has no tokens is refused without quoting any. -/
theorem Line.quoted?_of_parse {e : LineError} (h : Line.parse id raw = .error e) :
    e.problem.quoted? = none := by
  unfold Line.parse at h
  split at h
  · rename_i fault hfault
    cases h
    rcases Spaced.total raw.toList with ⟨ts, hspaced⟩ | ⟨n, problem, hfaulty⟩
    · rw [tokenize, hspaced.reads] at hfault
      cases hfault
    · rw [tokenize, hfaulty.reads] at hfault
      cases hfault
      rcases hfaulty.problem with rfl | rfl <;> rfl
  · cases h
    rfl
  · cases h

theorem Line.fresh_of_parse {l : Line} (h : Line.parse id raw = .ok l) : l.Fresh l :=
  ⟨.refl l, (free_of_parse h).2.1⟩

/-- A plan that forgets what it leaves comes to the same end. -/
theorem Plan.run_forget {σ α : Type} (plan : Plan σ α) :
    plan.forget.run sources package builder w =
      ((plan.run sources package builder w).1, (), (plan.run sources package builder w).2.2) := by
  induction plan generalizing w with
  | done a s => rfl
  | fail e s => rfl
  | refer r s next ih =>
    rw [Plan.forget, Plan.run, Plan.run]
    rcases r.resolve sources package builder w with ⟨e | t, w'⟩
    · rfl
    · exact ih t

/-- Whatever it is drafted from, a definition that fails over an error that quotes a text fails over
its own line, and the error blames what it quotes. -/
def Draft.Blames {α : Type} (draft : LineDraft α) : Prop :=
  ∀ (id : ObjectId) (raw : String) (sources : Sources) (package : String) (builder : Builder)
    (w w' : Workshop) (e : LineError),
    (linePlan id raw draft).run sources package builder w = (.error (.parse e), (), w') →
    e.problem.quoted?.isSome →
    e.origin = id ∧ ∃ l l', Line.parse id raw = .ok l ∧
      (draft l).run sources package builder w = (.error (.parse e), l', w') ∧ l.Blames l' e

theorem Draft.blames_of_meets {α : Type} {draft : LineDraft α} {Q : Line → α → Line → Prop}
    (h : ∀ l₀, Draft.Meets l₀ l₀.Fresh draft (Q l₀)) : Draft.Blames draft := by
  intro id raw sources package builder w w' e hrun hquoted
  cases hparse : Line.parse id raw with
  | error err =>
    rw [linePlan, hparse] at hrun
    cases hrun
    rw [Line.quoted?_of_parse hparse] at hquoted
    cases hquoted
  | ok l =>
    rw [linePlan, hparse] at hrun
    obtain ⟨l', hdraft⟩ : ∃ l', (draft l).run sources package builder w =
        (.error (.parse e), l', w') := by
      have hforget := (draft l).run_forget.symm.trans hrun
      rw [Prod.mk.injEq, Prod.mk.injEq] at hforget
      exact ⟨_, Prod.ext hforget.1 (Prod.ext rfl hforget.2.2)⟩
    rcases (h l l (Line.fresh_of_parse hparse)).of_run hdraft with ⟨_, hmissing⟩ | hfaults
    · cases hmissing
    · have hfault : l.Faults e l' := hfaults e rfl
      exact ⟨hfault.origin.trans (free_of_parse hparse).1, l, l', rfl, hdraft,
        hfault.blames hquoted⟩

end

/-- **An error quotes what is refused, at its token.**

Let a condition, an event, an objective or a variable with one of the built-in keywords fail over an
error in its line that quotes a text, whatever the packages are.  It is an error of that definition,
and one of two things holds.

* It is about the argument that was handed out last, and names its position.  The argument was
  refused as a number, a choice or a location; it is quoted itself, or the amount of an entry of it,
  or the number that it stands for, if that is zero where it must not be or infinite.
* It is about the value of `delay:` in a `folder`, or of `io:` in a `notify`, and quotes that value.
  Then nothing has been handed out, and the error is at token zero, which is the keyword.
-/
theorem quoted_tokens_refused (i : Integrations) :
    Draft.Blames (Vocabulary.registry i).condition ∧ Draft.Blames (Vocabulary.registry i).event ∧
    (∀ id, Draft.Blames ((Vocabulary.registry i).objective id)) ∧
    Draft.Blames (Vocabulary.registry i).var :=
  ⟨Draft.blames_of_meets fun _ => Vocabulary.meets_condition i,
    Draft.blames_of_meets fun _ => Vocabulary.meets_event i,
    fun id => Draft.blames_of_meets fun _ => Vocabulary.meets_objective i id,
    Draft.blames_of_meets fun _ => Vocabulary.meets_var i⟩

/-! ### A hall -/

/-- A builder that finds nothing. -/
def nobody : Builder := fun k id w => (.error ⟨id, k, .broken⟩, w)

/-- How a construction fails, if it does. -/
def failure? {α : Type} : Except BuildError α → Option BuildError
  | .ok _ => none
  | .error e => some e

theorem eq_error_of_failure? {α : Type} {result : Except BuildError α × Unit × Workshop}
    {e : BuildError} (h : failure? result.1 = some e) : result = (.error e, (), result.2.2) := by
  rcases result with ⟨_ | a, _, w⟩
  · cases h
    rfl
  · cases h

/-- Wolves that are to be killed `many` times are refused at the number, which is token two.  A
folder that is to be opened `soon` is refused at its keyword. -/
theorem quoted_tokens_refused_of_hall :
    (∃ l l' w', Line.parse ⟨"hall", "hunt"⟩ "mobkill wolf many" = .ok l ∧
      ((Vocabulary.registry ⟨true, true⟩).objective ⟨"hall", "hunt"⟩ l).run ⟨∅⟩ "hall" nobody
          Workshop.empty =
        (.error (.parse ⟨⟨"hall", "hunt"⟩, 2, .invalidNumber "many" "positive integer"⟩), l', w') ∧
      l.Blames l' ⟨⟨"hall", "hunt"⟩, 2, .invalidNumber "many" "positive integer"⟩) ∧
    ∃ l l' w', Line.parse ⟨"hall", "late"⟩ "folder ring delay:soon" = .ok l ∧
      ((Vocabulary.registry ⟨true, true⟩).event l).run ⟨∅⟩ "hall" nobody Workshop.empty =
        (.error (.parse ⟨⟨"hall", "late"⟩, 0, .invalidNumber "soon" "tick count"⟩), l', w') ∧
      l.Blames l' ⟨⟨"hall", "late"⟩, 0, .invalidNumber "soon" "tick count"⟩ := by
  obtain ⟨-, hevent, hobjective, -⟩ := quoted_tokens_refused ⟨true, true⟩
  have hmany : failure? ((linePlan ⟨"hall", "hunt"⟩ "mobkill wolf many"
      ((Vocabulary.registry ⟨true, true⟩).objective ⟨"hall", "hunt"⟩)).run ⟨∅⟩ "hall" nobody
      Workshop.empty).1 =
      some (.parse ⟨⟨"hall", "hunt"⟩, 2, .invalidNumber "many" "positive integer"⟩) := by
    decide +kernel
  have hsoon : failure? ((linePlan ⟨"hall", "late"⟩ "folder ring delay:soon"
      (Vocabulary.registry ⟨true, true⟩).event).run ⟨∅⟩ "hall" nobody Workshop.empty).1 =
      some (.parse ⟨⟨"hall", "late"⟩, 0, .invalidNumber "soon" "tick count"⟩) := by
    decide +kernel
  obtain ⟨-, l, l', hparse, hrun, hblames⟩ :=
    hobjective _ _ _ _ _ _ _ _ _ (eq_error_of_failure? hmany) rfl
  obtain ⟨-, line, line', hline, hlate, hkeyed⟩ :=
    hevent _ _ _ _ _ _ _ _ (eq_error_of_failure? hsoon) rfl
  exact ⟨⟨l, l', _, hparse, hrun, hblames⟩, line, line', _, hline, hlate, hkeyed⟩

/-- The token that an error of a keyed argument names does not even contain what the error
quotes. -/
theorem quoted_not_in_named_token : ¬ ∀ raw tokens e text,
    failure? ((linePlan ⟨"hall", "late"⟩ raw (Vocabulary.registry ⟨true, true⟩).event).run ⟨∅⟩
      "hall" nobody Workshop.empty).1 = some (.parse e) →
    Line.tokenize raw = .ok tokens → e.problem.quoted? = some text →
    ∃ token, tokens[e.index]? = some token ∧ text.toList <:+: token.toList := by
  intro h
  obtain ⟨token, htoken, hinfix⟩ := h "folder ring delay:soon" ["folder", "ring", "delay:soon"]
    ⟨⟨"hall", "late"⟩, 0, .invalidNumber "soon" "tick count"⟩ "soon" (by decide +kernel)
    (by decide +kernel) rfl
  obtain rfl : "folder" = token := Option.some.inj htoken
  revert hinfix
  decide +kernel

end Questbook
