/-
Questbook/Proofs/Line/Arguments.lean

The arguments of a line, each handed out once.

A line that is read consists of the arguments that are free still and of the position handed out
last.  A call takes some of the free arguments (`Call.takes`): a positional one takes them ahead of
that position and moves there, a keyed one takes the first that has its key and stays.  What it
answers hangs on what it takes and on nothing else (`Call.verdict`).  So it is with every reader,

    l.read c.reader = (c.verdict l (c.takes l), c.leaves l),

and what a sequence of calls does is told by what is free before and after each of them.

Main result: `arguments_read_once`.
-/
import Mathlib.Data.List.Nodup
import Mathlib.Data.List.Perm.Subperm
import Questbook.Line.Argument

namespace Questbook.Line

/-! ### Free arguments -/

/-- The arguments that no reader has taken, with their positions, where `i` is that of the first
argument. -/
def freeFrom (i : Nat) : List Argument → List (Nat × String)
  | [] => []
  | a :: rest => if a.taken then freeFrom (i + 1) rest else (i, a.text) :: freeFrom (i + 1) rest

/-- The arguments that no reader has taken, with their positions. -/
def free (l : Line) : List (Nat × String) := freeFrom 1 l.arguments

/-- Arguments of which one counts as taken. -/
def takenAt (k : Nat) (l : List Argument) : List Argument :=
  l.modify k fun a => { a with taken := true }

section

variable {i k : Nat} {l : List Argument} {a : Nat × String} {p : Nat → String → Bool}

theorem le_of_mem_freeFrom (h : a ∈ freeFrom i l) : i ≤ a.1 := by
  induction l generalizing i with
  | nil => cases h
  | cons b rest ih =>
    rw [freeFrom] at h
    split at h
    · exact Nat.le_of_succ_le (ih h)
    · rcases List.mem_cons.1 h with rfl | h
      · exact Nat.le_refl _
      · exact Nat.le_of_succ_le (ih h)

theorem mem_freeFrom_iff {t : String} : (i + k, t) ∈ freeFrom i l ↔ l[k]? = some ⟨t, false⟩ := by
  induction l generalizing i k with
  | nil => simp [freeFrom]
  | cons b rest ih =>
    obtain ⟨text, taken⟩ := b
    cases k with
    | zero =>
      have hrest : (i, t) ∉ freeFrom (i + 1) rest := fun h =>
        absurd (le_of_mem_freeFrom h) (by simp)
      cases taken <;> simp [freeFrom, hrest, eq_comm]
    | succ k =>
      have hk : i + (k + 1) = i + 1 + k := by omega
      have hne : i + 1 + k ≠ i := by omega
      cases taken <;> simp [freeFrom, hk, ih, hne]

theorem length_freeFrom_le : (freeFrom i l).length ≤ l.length := by
  induction l generalizing i with
  | nil => exact Nat.le_refl _
  | cons b rest ih =>
    rw [freeFrom]
    split
    · exact Nat.le_succ_of_le ih
    · exact Nat.succ_le_succ ih

theorem pairwise_freeFrom : (freeFrom i l).Pairwise (·.1 < ·.1) := by
  induction l generalizing i with
  | nil => exact .nil
  | cons b rest ih =>
    rw [freeFrom]
    split
    · exact ih
    · exact .cons (fun a ha => le_of_mem_freeFrom ha) ih

/-- An argument that is taken is not free any more. -/
theorem freeFrom_takenAt : freeFrom i (takenAt k l) = (freeFrom i l).filter (·.1 ≠ i + k) := by
  induction l generalizing i k with
  | nil => cases k <;> rfl
  | cons b rest ih =>
    cases k with
    | zero =>
      -- All further arguments have greater positions, so that none of them is filtered out.
      have hrest : (freeFrom (i + 1) rest).filter (·.1 ≠ i) = freeFrom (i + 1) rest :=
        List.filter_eq_self.2 fun a ha => by
          have := le_of_mem_freeFrom ha
          simpa using (by omega : a.1 ≠ i)
      have htaken : takenAt 0 (b :: rest) = { b with taken := true } :: rest := rfl
      rw [htaken, freeFrom, freeFrom, if_pos rfl]
      cases b.taken with
      | true => exact hrest.symm
      | false => exact hrest.symm.trans (List.filter_cons_of_neg (by simp)).symm
    | succ k =>
      have htaken : takenAt (k + 1) (b :: rest) = b :: takenAt k rest := rfl
      have hk : i + (k + 1) = i + 1 + k := by omega
      rw [htaken, freeFrom, freeFrom, ih, hk]
      cases b.taken with
      | true => rfl
      | false => simp [show i ≠ i + 1 + k by omega]

theorem map_text_takenAt : (takenAt k l).map Argument.text = l.map Argument.text := by
  induction l generalizing k with
  | nil => cases k <;> rfl
  | cons b rest ih =>
    cases k with
    | zero => rfl
    | succ k => exact congrArg (b.text :: ·) ih

/-- What is taken first is the first free argument that is accepted. -/
theorem takeFirst_eq : takeFirst p i l =
    ((freeFrom i l).find? fun a => p a.1 a.2).map fun a => (a.1, a.2, takenAt (a.1 - i) l) := by
  induction l generalizing i with
  | nil => rfl
  | cons b rest ih =>
    have hrest : (takeFirst p (i + 1) rest).map (fun r => (r.1, r.2.1, b :: r.2.2)) =
        ((freeFrom (i + 1) rest).find? fun a => p a.1 a.2).map fun a =>
          (a.1, a.2, takenAt (a.1 - i) (b :: rest)) := by
      rw [ih]
      cases hfind : (freeFrom (i + 1) rest).find? fun a => p a.1 a.2 with
      | none => rfl
      | some a =>
        have hle := le_of_mem_freeFrom (List.mem_of_find?_eq_some hfind)
        have hsub : a.1 - i = a.1 - (i + 1) + 1 := by omega
        simp [takenAt, hsub]
    rw [takeFirst, freeFrom, hrest]
    cases hb : b.taken with
    | true => simp
    | false => by_cases hp : p i b.text = true <;> simp [hp, takenAt]

end

/-! ### Lines that are read -/

variable (l : Line)

/-- A line of which the argument at a position is taken. -/
def mark (i : Nat) : Line := { l with arguments := takenAt (i - 1) l.arguments }

/-- A line of which the argument at a position is taken and handed out. -/
def moveTo (i : Nat) : Line := { l.mark i with cursor := i }

/-- The free arguments behind the position that was handed out last. -/
def ahead : List (Nat × String) := l.free.filter fun a => decide (l.cursor < a.1)

/-- The first free argument that is accepted, if there is one. -/
def first (p : String → Bool) : List (Nat × String) := (l.free.filter fun a => p a.2).take 1

variable {l} {i n : Nat} {a : Nat × String} {t : String} {more : List (Nat × String)}

theorem pos_of_mem_free (h : a ∈ l.free) : 0 < a.1 := le_of_mem_freeFrom h

theorem mem_free_iff (hi : 0 < i) : (i, t) ∈ l.free ↔ l.arguments[i - 1]? = some ⟨t, false⟩ := by
  have hpos : 1 + (i - 1) = i := by omega
  have h : (1 + (i - 1), t) ∈ freeFrom 1 l.arguments ↔ _ := mem_freeFrom_iff
  rwa [hpos] at h

theorem pairwise_free : l.free.Pairwise (·.1 < ·.1) := pairwise_freeFrom

theorem nodup_free : (l.free.map Prod.fst).Nodup :=
  List.pairwise_map.2 (pairwise_free.imp Nat.ne_of_lt)

theorem unread_eq : l.unread = l.free.map Prod.snd := by
  have h (i : Nat) (as : List Argument) :
      (as.filter fun a => !a.taken).map Argument.text = (freeFrom i as).map Prod.snd := by
    induction as generalizing i with
    | nil => rfl
    | cons b rest ih => cases hb : b.taken <;> simp [freeFrom, hb, ih (i + 1)]
  exact h 1 l.arguments

theorem free_mark (hi : 0 < i) : (l.mark i).free = l.free.filter (·.1 ≠ i) := by
  have hpos : 1 + (i - 1) = i := by omega
  have h : freeFrom 1 (takenAt (i - 1) l.arguments) = _ := freeFrom_takenAt
  rwa [hpos] at h

theorem free_moveTo (hi : 0 < i) : (l.moveTo i).free = l.free.filter (·.1 ≠ i) := free_mark hi

/-- A search in vain comes to its end behind the last argument. -/
theorem stopFrom_of_takeFirst {p : Nat → String → Bool} {i : Nat} {l : List Argument}
    (h : takeFirst p i l = none) : stopFrom p i l = i + l.length := by
  induction l generalizing i with
  | nil => rfl
  | cons a rest ih =>
    rw [takeFirst] at h
    rw [stopFrom]
    split at h
    · cases h
    · rename_i hpassed
      rw [if_neg hpassed, ih (Option.map_eq_none_iff.1 h), List.length_cons]
      omega

/-- A line that has no next argument is searched to its end. -/
theorem stop_eq_length (h : l.advance? = none) : l.stop = l.length :=
  (stopFrom_of_takeFirst (Option.map_eq_none_iff.1 h)).trans (Nat.add_comm _ _)

theorem advance?_eq : l.advance? = l.ahead.head?.map fun a => (a.2, l.moveTo a.1) := by
  rw [advance?, takeFirst_eq, ahead, List.head?_filter, Option.map_map]
  rfl

/-- What is ahead once the first argument ahead was handed out. -/
theorem ahead_moveTo (h : l.ahead = a :: more) : (l.moveTo a.1).ahead = more := by
  have hsorted : (a :: more).Pairwise (·.1 < ·.1) := h ▸ pairwise_free.filter _
  have ha : a ∈ l.free ∧ l.cursor < a.1 := by
    have hmem : a ∈ l.ahead := h ▸ List.mem_cons_self
    simpa [ahead] using hmem
  calc (l.moveTo a.1).ahead
      = (l.free.filter (·.1 ≠ a.1)).filter fun b => decide (a.1 < b.1) := by
        rw [ahead, free_moveTo (pos_of_mem_free ha.1)]
        rfl
    _ = l.ahead.filter fun b => decide (a.1 < b.1) := by
        -- What stands behind `a` is none but ahead, and is not `a` itself.
        rw [ahead, List.filter_filter, List.filter_filter]
        refine List.filter_congr fun b _ => ?_
        by_cases hb : a.1 < b.1
        · have hbehind : l.cursor < b.1 := Nat.lt_trans ha.2 hb
          simp [hb, hbehind, Nat.ne_of_gt hb]
        · simp [hb]
    _ = more := by
        rw [h, List.filter_cons_of_neg (by simp)]
        exact List.filter_eq_self.2 fun b hb => by simpa using (List.pairwise_cons.1 hsorted).1 b hb

/-- To drain a line is to hand out all that is ahead. -/
theorem drain_eq (hn : l.ahead.length ≤ n) : drain n l =
    (l.ahead.map Prod.snd, l.ahead.foldl (fun l a => l.moveTo a.1) l) := by
  -- The induction is on the turns of the loop; each of them has one argument less ahead.
  induction n generalizing l with
  | zero =>
    rw [List.eq_nil_of_length_eq_zero (Nat.le_zero.1 hn)]
    rfl
  | succ n ih =>
    rw [drain, advance?_eq]
    cases hahead : l.ahead with
    | nil => rfl
    | cons a more =>
      have hmore := ahead_moveTo hahead
      rw [hahead, List.length_cons, Nat.succ_le_succ_iff] at hn
      have hdrain := ih (l := l.moveTo a.1) (hmore ▸ hn)
      rw [hmore] at hdrain
      simp [hdrain]

/-! ### Calls -/

/-- What a line may be asked for. -/
inductive Call : Type 1 where
  | next
  | nextInt
  | nextPositive
  | nextNumber
  | nextChoice (α : Type) [Choice α]
  | nextList
  | nextLocation
  | rest
  | optional (key : String)
  | optionalList (key : String)
  | flag (word : String)

namespace Call

/-- What a call is answered with, if it does not fail. -/
def Answer : Call → Type
  | next => String
  | nextInt => Int
  | nextPositive => Nat
  | nextNumber => Float
  | nextChoice α => α
  | nextList => List String
  | nextLocation => Location
  | rest => String
  | optional _ => Option String
  | optionalList _ => List String
  | flag _ => Bool

/-- The reader that a call makes use of. -/
def reader : (c : Call) → Reader c.Answer
  | next => Line.next
  | nextInt => Line.nextInt
  | nextPositive => Line.nextPositive
  | nextNumber => Line.nextNumber
  | nextChoice α => (Line.nextChoice : Reader α)
  | nextList => Line.nextList
  | nextLocation => Line.nextLocation
  | rest => Line.rest
  | optional key => Line.optional key
  | optionalList key => Line.optionalList key
  | flag word => Line.flag word

/-- Whether a call asks for what comes next, and not for what has a key. -/
def isPositional : Call → Bool
  | optional _ | optionalList _ | flag _ => false
  | _ => true

/-- The arguments that a call takes, with their positions. -/
def takes (l : Line) : Call → List (Nat × String)
  | rest => l.ahead
  | optional key | optionalList key => l.first fun token => (valueOf? key token).isSome
  | flag word => l.first (Text.sameFolded · word)
  | _ => l.ahead.take 1

/-- The line that a call leaves. -/
def leaves (l : Line) (c : Call) : Line :=
  if c.isPositional then (c.takes l).foldl (fun l a => l.moveTo a.1) l
  else (c.takes l).foldl (fun l a => l.mark a.1) l

end Call

/-- What comes of the first of the arguments that are taken: a failure names its position, and
without any the position behind the last argument. -/
def judged {α : Type} (l : Line) (taken : List (Nat × String))
    (judge : String → Except LineProblem α) : Except LineError α :=
  match taken with
  | [] => .error (l.errorAt l.length .missingArgument)
  | (i, token) :: _ => (judge token).mapError (l.errorAt i)

namespace Call

/-- A number that a token is read as, or that it is none. -/
def numeral {α : Type} (expected : String) (f : String → Option α) (token : String) :
    Except LineProblem α :=
  match f token with
  | some a => .ok a
  | none => .error (.invalidNumber token expected)

/-- What a call answers, given the arguments that it takes. -/
def verdict (l : Line) : (c : Call) → List (Nat × String) → Except LineError c.Answer
  | next, taken => l.judged taken .ok
  | nextInt, taken => l.judged taken (numeral "integer" (Decimal.signed? (-2147483648) 2147483647))
  | nextPositive, taken => l.judged taken fun token => do
    let n ← numeral "positive integer" (Decimal.unsigned? Decimal.maxUnsigned32) token
    if n = 0 then .error (.invalidNumber "0" "positive integer") else .ok n
  | nextNumber, taken => l.judged taken fun token => do
    let x ← numeral "number" Decimal.real? token
    if x.isFinite then .ok x else .error (.invalidNumber (Decimal.plain x) "finite number")
  | nextChoice α, taken => l.judged (α := α) taken fun token =>
    match Choice.ofName? token with
    | some a => .ok a
    | none => .error (.invalidChoice token (Choice.names α))
  | nextList, taken => l.judged taken fun token => .ok (Text.listed token)
  | nextLocation, taken => l.judged taken fun token =>
    (Location.parse token).mapError (.invalidLocation token)
  | rest, taken =>
    if taken.isEmpty then .error (l.errorAt l.length .missingArgument)
    else .ok (Text.joined " " (taken.map Prod.snd))
  | optional key, taken => .ok (taken.head?.bind fun a => valueOf? key a.2)
  | optionalList key, taken =>
    .ok (((taken.head?.bind fun a => valueOf? key a.2).map Text.listed).getD [])
  | flag _, taken => .ok !taken.isEmpty

end Call

/-! ### What readers read -/

section

variable {α β : Type}

theorem read_get_bind (f : Line → Reader β) : l.read (get >>= f) = l.read (f l) := rfl

/-- A reader goes on from what the first one has read, unless that fails. -/
theorem read_bind (r : Reader α) (f : α → Reader β) : l.read (r >>= f) =
    match l.read r with
    | (.ok a, l') => l'.read (f a)
    | (.error err, l') => (.error err, l') := by
  have hbind : l.read (r >>= f) = (ExceptT.bindCont f (l.read r).1).run (l.read r).2 := rfl
  rw [hbind]
  rcases l.read r with ⟨_ | a, l'⟩ <;> rfl

/-- The next argument is the first one ahead. -/
theorem read_next : l.read next =
    match l.ahead with
    | [] => (.error (l.errorAt l.length .missingArgument), l)
    | a :: _ => (.ok a.2, l.moveTo a.1) := by
  have hadvance := l.advance?_eq
  rw [next, read_get_bind, hadvance]
  cases hahead : l.ahead with
  | nil =>
    rw [hahead] at hadvance
    rw [← l.stop_eq_length hadvance]
    rfl
  | cons a more => rfl

/-- A reader that goes on from the next argument, and judges it by itself. -/
theorem read_next_bind {f : String → Reader α} {judge : String → Except LineProblem α}
    (hf : ∀ (token : String) (l : Line),
      l.read (f token) = ((judge token).mapError l.errorHere, l)) :
    l.read (next >>= f) = (l.judged (l.ahead.take 1) judge,
      (l.ahead.take 1).foldl (fun l a => l.moveTo a.1) l) := by
  rw [read_bind, read_next]
  cases l.ahead with
  | nil => rfl
  | cons a more => exact hf a.2 (l.moveTo a.1)

/-- A number that is read, and checked by itself. -/
theorem read_nextAs_bind {expected : String} {f : String → Option α} {g : α → Reader β}
    {check : α → Except LineProblem β}
    (hg : ∀ (a : α) (l : Line), l.read (g a) = ((check a).mapError l.errorHere, l)) :
    l.read (nextAs expected f >>= g) =
      (l.judged (l.ahead.take 1) fun token => Call.numeral expected f token >>= check,
        (l.ahead.take 1).foldl (fun l a => l.moveTo a.1) l) := by
  rw [nextAs, bind_assoc]
  refine read_next_bind fun token l => ?_
  rw [read_bind, Call.numeral]
  cases f token with
  | none => rfl
  | some a => exact hg a l

theorem read_nextAs {expected : String} {f : String → Option α} : l.read (nextAs expected f) =
    (l.judged (l.ahead.take 1) (Call.numeral expected f),
      (l.ahead.take 1).foldl (fun l a => l.moveTo a.1) l) := by
  refine read_next_bind fun token l => ?_
  unfold Call.numeral
  cases f token <;> rfl

/-- The rest is all that is ahead. -/
theorem read_rest : l.read rest =
    (if l.ahead.isEmpty then .error (l.errorAt l.length .missingArgument)
      else .ok (Text.joined " " (l.ahead.map Prod.snd)),
      l.ahead.foldl (fun l a => l.moveTo a.1) l) := by
  have hlength : l.ahead.length ≤ l.arguments.length :=
    Nat.le_trans (List.length_filter_le _ _) length_freeFrom_le
  rw [rest, read_get_bind, drain_eq hlength]
  cases l.ahead <;> rfl

/-- The first free argument that is accepted is taken wherever it stands. -/
theorem takeFirst_free (p : String → Bool) : takeFirst (fun _ token => p token) 1 l.arguments =
    (l.first p).head?.map fun a => (a.1, a.2, (l.mark a.1).arguments) := by
  rw [takeFirst_eq, first, List.head?_take, if_neg Nat.one_ne_zero, List.head?_filter]
  rfl

theorem first_cases (p : String → Bool) : l.first p = [] ∨ ∃ a, l.first p = [a] := by
  unfold first
  cases l.free.filter fun a => p a.2 with
  | nil => exact .inl rfl
  | cons a more => exact .inr ⟨a, rfl⟩

theorem read_optional (key : String) : l.read (optional key) =
    (.ok ((l.first fun token => (valueOf? key token).isSome).head?.bind fun a => valueOf? key a.2),
      (l.first fun token => (valueOf? key token).isSome).foldl (fun l a => l.mark a.1) l) := by
  rw [optional, read_get_bind, takeFirst_free fun token => (valueOf? key token).isSome]
  rcases l.first_cases fun token => (valueOf? key token).isSome with h | ⟨a, h⟩ <;> rw [h] <;> rfl

theorem read_optionalList (key : String) : l.read (optionalList key) =
    (.ok ((((l.first fun token => (valueOf? key token).isSome).head?.bind fun a =>
        valueOf? key a.2).map Text.listed).getD []),
      (l.first fun token => (valueOf? key token).isSome).foldl (fun l a => l.mark a.1) l) := by
  rw [optionalList, read_bind, read_optional]
  cases (l.first fun token => (valueOf? key token).isSome).head?.bind fun a => valueOf? key a.2 <;>
    rfl

theorem read_flag (word : String) : l.read (flag word) =
    (.ok !(l.first (Text.sameFolded · word)).isEmpty,
      (l.first (Text.sameFolded · word)).foldl (fun l a => l.mark a.1) l) := by
  rw [flag, read_get_bind, takeFirst_free (Text.sameFolded · word)]
  rcases l.first_cases (Text.sameFolded · word) with h | ⟨a, h⟩ <;> rw [h] <;> rfl

end

/-- **A call takes free arguments, and answers by what it takes.** -/
theorem read_call (c : Call) : l.read c.reader = (c.verdict l (c.takes l), c.leaves l) := by
  cases c with
  | next =>
    show l.read Line.next = _
    rw [← bind_pure Line.next]
    exact read_next_bind fun token l => rfl
  | nextInt => exact read_nextAs
  | nextPositive =>
    refine read_nextAs_bind fun n l => ?_
    cases n <;> rfl
  | nextNumber =>
    refine read_nextAs_bind fun x l => ?_
    cases x.isFinite <;> rfl
  | nextChoice α =>
    refine read_next_bind fun token l => ?_
    unfold choice
    cases (Choice.ofName? token : Option α) <;> rfl
  | nextList =>
    show l.read (Text.listed <$> Line.next) = _
    rw [map_eq_pure_bind]
    exact read_next_bind fun token l => rfl
  | nextLocation =>
    refine read_next_bind fun token l => ?_
    cases Location.parse token <;> rfl
  | rest => exact read_rest
  | optional key => exact read_optional key
  | optionalList key => exact read_optionalList key
  | flag word => exact read_flag word

/-! ### What calls take -/

section

variable {c : Call}

theorem Call.takes_sublist_free (c : Call) : (c.takes l).Sublist l.free := by
  cases c with
  | rest => exact List.filter_sublist
  | optional | optionalList | flag => exact (List.take_sublist _ _).trans List.filter_sublist
  | _ => exact (List.take_sublist _ _).trans List.filter_sublist

/-- A positional call takes the first arguments ahead, if not all of them. -/
theorem Call.takes_prefix_ahead (hc : c.isPositional = true) : c.takes l <+: l.ahead := by
  cases c with
  | rest => exact List.prefix_refl _
  | optional | optionalList | flag => cases hc
  | _ => exact List.take_prefix _ _

/-- It takes none only where nothing is ahead. -/
theorem Call.ahead_eq_nil (hc : c.isPositional = true) (h : c.takes l = []) : l.ahead = [] := by
  cases c with
  | rest => exact h
  | optional | optionalList | flag => cases hc
  | _ => simpa [Call.takes] using h

end

/-- All that a line was written with, keyword included. -/
def tokens (l : Line) : List String := l.keyword :: l.arguments.map Argument.text

theorem length_tokens : l.tokens.length = l.length := by simp [tokens, length]

/-- Lines of the same tokens and the same definition. -/
def Alike (l l' : Line) : Prop := l'.origin = l.origin ∧ l'.tokens = l.tokens

theorem Alike.refl (l : Line) : l.Alike l := ⟨rfl, rfl⟩

theorem Alike.trans {l l' l'' : Line} (h : l.Alike l') (h' : l'.Alike l'') : l.Alike l'' :=
  ⟨h'.1.trans h.1, h'.2.trans h.2⟩

theorem Alike.keyword_eq {l l' : Line} (h : l.Alike l') : l'.keyword = l.keyword :=
  (List.cons.inj h.2).1

theorem alike_mark (i : Nat) : l.Alike (l.mark i) :=
  ⟨rfl, congrArg (l.keyword :: ·) map_text_takenAt⟩

theorem filter_filter_fst (l : List (Nat × String)) :
    (l.filter (·.1 ≠ a.1)).filter (·.1 ∉ more.map Prod.fst) =
      l.filter (·.1 ∉ (a :: more).map Prod.fst) := by
  rw [List.filter_filter]
  refine List.filter_congr fun b _ => ?_
  rw [← Bool.decide_and, decide_eq_decide, List.map_cons, List.mem_cons, not_or]
  exact and_comm

/-- Arguments that are taken one after another are not free any more. -/
theorem foldl_mark {taken : List (Nat × String)} (h : ∀ a ∈ taken, 0 < a.1) :
    l.Alike (taken.foldl (fun l a => l.mark a.1) l) ∧
    (taken.foldl (fun l a => l.mark a.1) l).cursor = l.cursor ∧
    (taken.foldl (fun l a => l.mark a.1) l).free =
      l.free.filter fun a => a.1 ∉ taken.map Prod.fst := by
  induction taken generalizing l with
  | nil => exact ⟨.refl l, rfl, by simp⟩
  | cons a more ih =>
    rw [List.forall_mem_cons] at h
    obtain ⟨halike, hcursor, hfree⟩ := ih (l := l.mark a.1) h.2
    refine ⟨(alike_mark a.1).trans halike, hcursor, hfree.trans ?_⟩
    rw [free_mark h.1, filter_filter_fst]

/-- So it is with arguments that are handed out, the last of them being that of the cursor. -/
theorem foldl_moveTo {taken : List (Nat × String)} (h : ∀ a ∈ taken, 0 < a.1) :
    l.Alike (taken.foldl (fun l a => l.moveTo a.1) l) ∧
    (taken.foldl (fun l a => l.moveTo a.1) l).cursor =
      ((taken.map Prod.fst).getLast?).getD l.cursor ∧
    (taken.foldl (fun l a => l.moveTo a.1) l).free =
      l.free.filter fun a => a.1 ∉ taken.map Prod.fst := by
  induction taken generalizing l with
  | nil => exact ⟨.refl l, rfl, by simp⟩
  | cons a more ih =>
    rw [List.forall_mem_cons] at h
    obtain ⟨halike, hcursor, hfree⟩ := ih (l := l.moveTo a.1) h.2
    refine ⟨(alike_mark a.1).trans halike, ?_, hfree.trans ?_⟩
    · rw [List.foldl_cons, hcursor, List.map_cons]
      cases more <;> simp [moveTo, List.getLast?_cons]
    · rw [free_moveTo h.1, filter_filter_fst]

/-- What a call leaves: the same tokens, of which those that it takes are not free any more. -/
theorem leaves_eq (c : Call) : l.Alike (c.leaves l) ∧
    (c.leaves l).cursor =
      (if c.isPositional then ((c.takes l).map Prod.fst).getLast? else none).getD l.cursor ∧
    (c.leaves l).free = l.free.filter fun a => a.1 ∉ (c.takes l).map Prod.fst := by
  have hpos : ∀ a ∈ c.takes l, 0 < a.1 := fun a ha =>
    pos_of_mem_free (c.takes_sublist_free.subset ha)
  unfold Call.leaves
  split
  · exact foldl_moveTo hpos
  · exact foldl_mark hpos

/-! ### Sequences of calls -/

/-- A call and how it went. -/
structure Reading : Type 1 where
  before : Line
  call : Call
  answer : Except LineError call.Answer
  after : Line

/-- The arguments that were free before a call and are not so after it. -/
def Reading.taken (r : Reading) : List (Nat × String) := r.before.free.filter (· ∉ r.after.free)

/-- How calls go one after another, whatever they answer. -/
def readings (l : Line) : List Call → List Reading
  | [] => []
  | c :: rest => ⟨l, c, (l.read c.reader).1, (l.read c.reader).2⟩ ::
    readings (l.read c.reader).2 rest

/-- The line after some calls. -/
def readAll (l : Line) : List Call → Line
  | [] => l
  | c :: rest => readAll (l.read c.reader).2 rest

/-- The positions of the arguments that are taken in some readings. -/
def positions (log : List Reading) : List Nat := (log.flatMap Reading.taken).map Prod.fst

/-- The readings that ask for what comes next. -/
def positional (log : List Reading) : List Reading := log.filter (·.call.isPositional)

/-- How a call goes, told by what it takes. -/
def Call.reading (l : Line) (c : Call) : Reading :=
  ⟨l, c, c.verdict l (c.takes l), c.leaves l⟩

theorem readings_cons (c : Call) (rest : List Call) :
    l.readings (c :: rest) = c.reading l :: (c.leaves l).readings rest := by
  rw [readings, read_call]
  rfl

theorem readAll_cons (c : Call) (rest : List Call) :
    l.readAll (c :: rest) = (c.leaves l).readAll rest := by
  rw [readAll, read_call]

theorem filter_mem_of_sublist {l₁ l₂ : List (Nat × String)} (h : l₁.Sublist l₂)
    (hnodup : l₂.Nodup) : l₂.filter (· ∈ l₁) = l₁ := by
  have hsub : l₁.Sublist (l₂.filter (· ∈ l₁)) := by
    have hself : l₁.filter (· ∈ l₁) = l₁ := List.filter_eq_self.2 fun a ha => by simpa using ha
    have hfilter := h.filter (· ∈ l₁)
    rwa [hself] at hfilter
  have hlength : (l₂.filter (· ∈ l₁)).length ≤ l₁.length :=
    (List.subperm_of_subset (hnodup.filter _) fun a ha => by
      simpa using (List.mem_filter.1 ha).2).length_le
  exact (hsub.eq_of_length_le hlength).symm

/-- A reading takes what its call takes. -/
theorem taken_reading (c : Call) : (c.reading l).taken = c.takes l := by
  obtain ⟨-, -, hfree⟩ := leaves_eq (l := l) c
  have hsub := c.takes_sublist_free (l := l)
  calc l.free.filter (· ∉ (c.leaves l).free)
      = l.free.filter (· ∈ c.takes l) := by
        refine List.filter_congr fun a ha => decide_eq_decide.2 ?_
        rw [hfree, List.mem_filter, decide_eq_true_iff, not_and, not_not]
        refine ⟨fun h => ?_, fun h _ => List.mem_map_of_mem h⟩
        -- Free arguments differ in their positions, so that `a` is the one that is taken there.
        obtain ⟨b, hb, hfst⟩ := List.mem_map.1 (h ha)
        rwa [← List.inj_on_of_nodup_map nodup_free (hsub.subset hb) ha hfst]
    _ = c.takes l := filter_mem_of_sublist hsub (.of_map _ nodup_free)

/-! ### What calls preserve -/

/-- Whether all arguments up to the position handed out last are taken. -/
def Swept (l : Line) : Prop := ∀ a ∈ l.free, l.cursor < a.1

section

variable {c : Call} {calls : List Call} {r : Reading}

theorem Swept.ahead_eq (h : l.Swept) : l.ahead = l.free :=
  List.filter_eq_self.2 fun a ha => decide_eq_true (h a ha)

theorem mem_free_leaves : a ∈ (c.leaves l).free ↔
    a ∈ l.free ∧ a.1 ∉ (c.takes l).map Prod.fst := by
  rw [(leaves_eq c).2.2, List.mem_filter, decide_eq_true_iff]

/-- What a positional call leaves free stands behind what it takes. -/
theorem Swept.lt_of_takes {b : Nat × String} (h : l.Swept) (hc : c.isPositional = true)
    (ha : a ∈ c.takes l) (hb : b ∈ (c.leaves l).free) : a.1 < b.1 := by
  rw [mem_free_leaves] at hb
  obtain ⟨more, hfree⟩ := h.ahead_eq ▸ Call.takes_prefix_ahead (l := l) hc
  have hmore : b ∈ more := by
    have hmem := hfree ▸ hb.1
    exact (List.mem_append.1 hmem).resolve_left fun h => hb.2 (List.mem_map_of_mem h)
  have hsorted : (c.takes l ++ more).Pairwise (·.1 < ·.1) := hfree ▸ pairwise_free
  exact (List.pairwise_append.1 hsorted).2.2 a ha b hmore

/-- No call skips a free argument. -/
theorem Swept.leaves (h : l.Swept) (c : Call) : (c.leaves l).Swept := by
  intro b hb
  have hfree := mem_free_leaves.1 hb
  rw [(leaves_eq c).2.1]
  split
  · rename_i hc
    cases hlast : ((c.takes l).map Prod.fst).getLast? with
    | none => exact h b hfree.1
    | some i =>
      obtain ⟨a, ha, rfl⟩ := List.mem_map.1 (List.mem_of_getLast? hlast)
      exact h.lt_of_takes hc ha hb
  · exact h b hfree.1

theorem positions_cons (log : List Reading) :
    positions (c.reading l :: log) = (c.takes l).map Prod.fst ++ positions log := by
  rw [positions, List.flatMap_cons, List.map_append, taken_reading]
  rfl

/-- Each reading finds a line of the same tokens, of which no more are free than at first. -/
theorem exists_of_mem_readings (h : l.Swept) (hr : r ∈ l.readings calls) :
    ∃ l' : Line, l.Alike l' ∧ l'.Swept ∧ l'.free ⊆ l.free ∧ r = r.call.reading l' := by
  induction calls generalizing l with
  | nil => cases hr
  | cons c rest ih =>
    rw [readings_cons] at hr
    rcases List.mem_cons.1 hr with rfl | hr
    · exact ⟨l, .refl l, h, List.Subset.refl _, rfl⟩
    · obtain ⟨l', halike, hswept, hfree, hreading⟩ := ih (h.leaves c) hr
      exact ⟨l', (leaves_eq c).1.trans halike, hswept,
        fun a ha => (mem_free_leaves.1 (hfree ha)).1, hreading⟩

theorem mem_free_of_taken (h : l.Swept) (hr : r ∈ l.readings calls) (ha : a ∈ r.taken) :
    a ∈ l.free := by
  obtain ⟨l', -, -, hfree, hreading⟩ := exists_of_mem_readings h hr
  rw [hreading, taken_reading] at ha
  exact hfree (r.call.takes_sublist_free.subset ha)

theorem exists_of_mem_positions {i : Nat} (h : l.Swept) (hi : i ∈ positions (l.readings calls)) :
    ∃ a ∈ l.free, a.1 = i := by
  obtain ⟨a, ha, rfl⟩ := List.mem_map.1 hi
  obtain ⟨r, hr, ha⟩ := List.mem_flatMap.1 ha
  exact ⟨a, mem_free_of_taken h hr ha, rfl⟩

theorem alike_readAll : l.Alike (l.readAll calls) := by
  induction calls generalizing l with
  | nil => exact .refl l
  | cons c rest ih =>
    rw [readAll_cons]
    exact (leaves_eq c).1.trans ih

theorem Swept.readAll (h : l.Swept) : (l.readAll calls).Swept := by
  induction calls generalizing l with
  | nil => exact h
  | cons c rest ih =>
    rw [readAll_cons]
    exact ih (h.leaves c)

/-- What is free in the end was free at first, and no call took it. -/
theorem free_readAll :
    (l.readAll calls).free = l.free.filter (·.1 ∉ positions (l.readings calls)) := by
  induction calls generalizing l with
  | nil => exact (List.filter_eq_self.2 fun a _ => rfl).symm
  | cons c rest ih =>
    rw [readAll_cons, ih, (leaves_eq c).2.2, List.filter_filter, readings_cons, positions_cons]
    refine List.filter_congr fun a _ => ?_
    rw [← Bool.decide_and, decide_eq_decide, List.mem_append, not_or]
    exact and_comm

/-- No argument is taken twice. -/
theorem nodup_positions (h : l.Swept) : (positions (l.readings calls)).Nodup := by
  induction calls generalizing l with
  | nil => exact .nil
  | cons c rest ih =>
    rw [readings_cons, positions_cons]
    refine List.nodup_append'.2 ⟨?_, ih (h.leaves c), fun i hi hrest => ?_⟩
    · exact (c.takes_sublist_free.map Prod.fst).nodup nodup_free
    · -- What is taken later is free after this call still.
      obtain ⟨a, ha, rfl⟩ := exists_of_mem_positions (h.leaves c) hrest
      exact (mem_free_leaves.1 ha).2 hi

theorem positional_cons (hc : c.isPositional = true) (log : List Reading) :
    positional (c.reading l :: log) = c.reading l :: positional log :=
  List.filter_cons_of_pos hc

theorem positional_cons_keyed (hc : ¬ c.isPositional = true) (log : List Reading) :
    positional (c.reading l :: log) = positional log :=
  List.filter_cons_of_neg hc

theorem positions_positional_subset (log : List Reading) :
    positions (positional log) ⊆ positions log := by
  refine List.map_subset _ fun a ha => ?_
  obtain ⟨r, hr, ha⟩ := List.mem_flatMap.1 ha
  exact List.mem_flatMap.2 ⟨r, (List.mem_filter.1 hr).1, ha⟩

/-- Positional calls go forward. -/
theorem pairwise_positional (h : l.Swept) :
    (positions (positional (l.readings calls))).Pairwise (· < ·) := by
  induction calls generalizing l with
  | nil => exact .nil
  | cons c rest ih =>
    have hih := ih (h.leaves c)
    rw [readings_cons]
    by_cases hc : c.isPositional = true
    · rw [positional_cons hc, positions_cons]
      refine List.pairwise_append.2 ⟨?_, hih, fun i hi j hj => ?_⟩
      · exact List.pairwise_map.2 (pairwise_free.sublist c.takes_sublist_free)
      · obtain ⟨a, ha, rfl⟩ := List.mem_map.1 hi
        obtain ⟨b, hb, rfl⟩ :=
          exists_of_mem_positions (h.leaves c) (positions_positional_subset _ hj)
        exact h.lt_of_takes hc ha hb
    · rwa [positional_cons_keyed hc]

/-- The cursor stands where the last positional call that took something left it. -/
theorem cursor_readAll : (l.readAll calls).cursor =
    (positions (positional (l.readings calls))).getLast?.getD l.cursor := by
  induction calls generalizing l with
  | nil => rfl
  | cons c rest ih =>
    rw [readAll_cons, ih, (leaves_eq c).2.1, readings_cons]
    by_cases hc : c.isPositional = true
    · rw [positional_cons hc, positions_cons, if_pos hc, List.getLast?_append]
      cases (positions (positional ((c.leaves l).readings rest))).getLast? <;> rfl
    · rw [positional_cons_keyed hc, if_neg hc]
      rfl

/-! ### Missing arguments -/

/-- Whether a call fails for want of an argument. -/
def Reading.Missing (r : Reading) : Prop :=
  ∃ err, r.answer = .error err ∧ err.problem = .missingArgument

theorem judged_missing_iff {α : Type} {taken : List (Nat × String)}
    {judge : String → Except LineProblem α}
    (hjudge : ∀ token, judge token ≠ .error .missingArgument) :
    (∃ err, l.judged taken judge = .error err ∧ err.problem = .missingArgument) ↔ taken = [] := by
  constructor
  · rintro ⟨err, herr, hproblem⟩
    match taken with
    | [] => rfl
    | (i, token) :: _ =>
      cases hverdict : judge token with
      | ok a => simp [judged, hverdict, Except.mapError] at herr
      | error problem =>
        simp only [judged, hverdict, Except.mapError, Except.error.injEq] at herr
        rw [← herr] at hproblem
        exact absurd (hverdict.trans (congrArg _ hproblem)) (hjudge token)
  · rintro rfl
    exact ⟨_, rfl, rfl⟩

theorem Call.numeral_ne_missing {α : Type} {expected : String} {f : String → Option α}
    (token : String) : Call.numeral expected f token ≠ .error .missingArgument := by
  unfold Call.numeral
  split <;> simp

/-- It is a positional call that fails for want of an argument, and it takes none. -/
theorem missing_reading_iff :
    (c.reading l).Missing ↔ c.isPositional = true ∧ c.takes l = [] := by
  show (∃ err, c.verdict l (c.takes l) = .error err ∧ _) ↔ _
  -- What a call finds amiss with an argument is never that the argument is missing.
  cases c with
  | next =>
    refine (judged_missing_iff fun token => ?_).trans (by simp [Call.isPositional])
    nofun
  | nextInt =>
    exact (judged_missing_iff Call.numeral_ne_missing).trans (by simp [Call.isPositional])
  | nextPositive =>
    refine (judged_missing_iff fun token => ?_).trans (by simp [Call.isPositional])
    unfold Call.numeral
    split
    · rename_i n _
      cases n <;> nofun
    · nofun
  | nextNumber =>
    refine (judged_missing_iff fun token => ?_).trans (by simp [Call.isPositional])
    unfold Call.numeral
    split
    · rename_i x _
      show (if x.isFinite then _ else _) ≠ _
      split <;> nofun
    · nofun
  | nextChoice α =>
    refine (judged_missing_iff fun token => ?_).trans (by simp [Call.isPositional])
    split <;> nofun
  | nextList =>
    refine (judged_missing_iff fun token => ?_).trans (by simp [Call.isPositional])
    nofun
  | nextLocation =>
    refine (judged_missing_iff fun token => ?_).trans (by simp [Call.isPositional])
    cases Location.parse token <;> nofun
  | rest =>
    rw [Call.verdict]
    cases Call.takes l .rest with
    | nil => exact iff_of_true ⟨_, rfl, rfl⟩ ⟨rfl, rfl⟩
    | cons a more => exact iff_of_false (by rintro ⟨_, ⟨⟩, _⟩) nofun
  | optional | optionalList | flag => exact iff_of_false (by rintro ⟨_, ⟨⟩, _⟩) nofun

/-- The answer then names the position behind the last token, and the line stays as it was. -/
theorem Reading.Missing.eq (h : (c.reading l).Missing) : c.reading l =
    ⟨l, c, .error ⟨l.origin, l.length, .missingArgument⟩, l⟩ := by
  obtain ⟨hc, htakes⟩ := missing_reading_iff.1 h
  rw [Call.reading, Call.leaves, htakes, if_pos hc]
  cases c with
  | optional | optionalList | flag => cases hc
  | _ => rfl

/-- After an argument is missing, every positional call misses one. -/
theorem pairwise_missing (h : l.Swept) : (l.readings calls).Pairwise fun r r' =>
    r.Missing → r'.call.isPositional = true → r'.Missing := by
  induction calls generalizing l with
  | nil => exact .nil
  | cons c rest ih =>
    rw [readings_cons]
    refine .cons (fun r hr hmissing hpositional => ?_) (ih (h.leaves c))
    obtain ⟨hc, htakes⟩ := missing_reading_iff.1 hmissing
    -- All that is free is ahead, so that nothing is free from here on.
    have hnone : l.free = [] := h.ahead_eq ▸ Call.ahead_eq_nil hc htakes
    obtain ⟨l', -, -, hfree, hreading⟩ := exists_of_mem_readings (h.leaves c) hr
    have hnone' : l'.free = [] := List.eq_nil_iff_forall_not_mem.2 fun a ha => by
      have hmem := (mem_free_leaves.1 (hfree ha)).1
      rw [hnone] at hmem
      cases hmem
    have htakes' : r.call.takes l' = [] :=
      List.sublist_nil.1 (hnone' ▸ r.call.takes_sublist_free)
    rw [hreading, missing_reading_iff]
    exact ⟨hpositional, htakes'⟩

end

/-! ### Lines that nobody has read -/

section

variable {origin : ObjectId} {raw : String} {calls : List Call}

theorem getElem?_tokens_of_mem_free (h : a ∈ l.free) : a.1 ≠ 0 ∧ l.tokens[a.1]? = some a.2 := by
  have hpos := pos_of_mem_free h
  have harg : l.arguments[a.1 - 1]? = some ⟨a.2, false⟩ := (mem_free_iff hpos).1 h
  obtain ⟨k, hk⟩ : ∃ k, a.1 = k + 1 := ⟨a.1 - 1, by omega⟩
  rw [hk, Nat.add_sub_cancel] at harg
  refine ⟨Nat.ne_of_gt hpos, ?_⟩
  rw [hk, tokens, List.getElem?_cons_succ, List.getElem?_map, harg]
  rfl

theorem freeFrom_fresh (ts : List String) (i : Nat) :
    freeFrom i (ts.map fun t => ⟨t, false⟩) = (ts.zipIdx i).map Prod.swap := by
  induction ts generalizing i with
  | nil => rfl
  | cons t ts ih => simpa [freeFrom] using ih (i + 1)

/-- All arguments of a line that nobody has read are free. -/
theorem free_of_parse (h : parse origin raw = .ok l) :
    l.origin = origin ∧ l.cursor = 0 ∧ l.free = (l.tokens.zipIdx.drop 1).map Prod.swap := by
  unfold parse at h
  split at h
  · cases h
  · cases h
  · rename_i keyword ts _
    cases h
    have htext : (ts.map fun t => ⟨t, false⟩).map Argument.text = ts := by
      rw [List.map_map]
      exact List.map_id ts
    refine ⟨rfl, rfl, (freeFrom_fresh ts 1).trans ?_⟩
    rw [tokens, htext, List.zipIdx_cons, List.drop_one, List.tail_cons]

theorem mem_free_of_parse {i : Nat} (h : parse origin raw = .ok l) (hi : 0 < i)
    (ht : l.tokens[i]? = some t) : (i, t) ∈ l.free := by
  have hmem : (t, i) ∈ (l.keyword, 0) :: l.tokens.zipIdx.drop 1 :=
    List.mk_mem_zipIdx_iff_getElem?.2 ht
  have hrest := (List.mem_cons.1 hmem).resolve_left fun heq => by
    rw [Prod.mk.injEq] at heq
    omega
  rw [(free_of_parse h).2.2]
  exact List.mem_map_of_mem hrest

theorem swept_of_parse (h : parse origin raw = .ok l) : l.Swept := fun a ha => by
  rw [(free_of_parse h).2.1]
  exact pos_of_mem_free ha

theorem cursor_lt_length (h : parse origin raw = .ok l) :
    (l.readAll calls).cursor < l.length := by
  rw [cursor_readAll, (free_of_parse h).2.1]
  cases hlast : (positions (positional (l.readings calls))).getLast? with
  | none => exact Nat.succ_pos _
  | some i =>
    have hi := positions_positional_subset _ (List.mem_of_getLast? hlast)
    obtain ⟨a, ha, rfl⟩ := exists_of_mem_positions (swept_of_parse h) hi
    rw [← length_tokens]
    exact (List.getElem?_eq_some_iff.1 (getElem?_tokens_of_mem_free ha).2).1

/-- What was handed out last can be looked up. -/
theorem current?_eq_none_iff (h : l.cursor < l.length) : l.current? = none ↔ l.cursor = 0 := by
  unfold current?
  split
  · rename_i hzero
    exact iff_of_true rfl hzero
  · rename_i hzero
    have hlt : l.cursor - 1 < l.arguments.length := by
      rw [length] at h
      omega
    rw [List.getElem?_eq_getElem hlt]
    exact iff_of_false nofun hzero

/-- **Every argument of a line is handed out once at most, in order, and none past the end.** -/
theorem arguments_read_once (h : parse origin raw = .ok l) (calls : List Call) :
    (positions (l.readings calls)).Nodup ∧
    (∀ r ∈ l.readings calls, (∀ a ∈ r.taken, a.1 ≠ 0 ∧ l.tokens[a.1]? = some a.2) ∧
      r.answer = r.call.verdict r.before r.taken) ∧
    (l.readAll calls).unread =
      ((l.tokens.zipIdx.drop 1).filter (·.2 ∉ positions (l.readings calls))).map Prod.fst ∧
    (positions (positional (l.readings calls))).Pairwise (· < ·) ∧
    (l.readAll calls).cursor = (positions (positional (l.readings calls))).getLast?.getD 0 ∧
    (∀ i, 0 < i → i ≤ (l.readAll calls).cursor → i ∈ positions (l.readings calls)) ∧
    (l.readAll calls).tokens = l.tokens ∧ (l.readAll calls).cursor < l.length ∧
    ((l.readAll calls).current? = none ↔ (l.readAll calls).cursor = 0) ∧
    (∀ r ∈ l.readings calls, r.Missing → r.call.isPositional = true ∧
      r.answer = .error ⟨origin, l.length, .missingArgument⟩ ∧ r.after = r.before) ∧
    (l.readings calls).Pairwise fun r r' =>
      r.Missing → r'.call.isPositional = true → r'.Missing := by
  have hswept := swept_of_parse h
  obtain ⟨horigin, hcursor, hfresh⟩ := free_of_parse h
  have hlast : (l.readAll calls).cursor = _ := hcursor ▸ cursor_readAll
  have hlt : (l.readAll calls).cursor < l.length := cursor_lt_length h
  refine ⟨nodup_positions hswept, fun r hr => ⟨fun a ha =>
    getElem?_tokens_of_mem_free (mem_free_of_taken hswept hr ha), ?_⟩, ?_,
    pairwise_positional hswept, hlast, fun i hi hle => ?_, alike_readAll.2, hlt, ?_,
    fun r hr hmissing => ?_, pairwise_missing hswept⟩
  · obtain ⟨l', -, -, -, hreading⟩ := exists_of_mem_readings hswept hr
    rw [hreading, taken_reading]
    rfl
  · rw [unread_eq, free_readAll, hfresh, List.filter_map, List.map_map]
    rfl
  · -- What is still free in the end comes after the cursor.
    by_contra hnot
    obtain ⟨t, ht⟩ : ∃ t, l.tokens[i]? = some t :=
      ⟨_, List.getElem?_eq_getElem (length_tokens ▸ Nat.lt_of_le_of_lt hle hlt)⟩
    have hmem : (i, t) ∈ (l.readAll calls).free := by
      rw [free_readAll, List.mem_filter]
      exact ⟨mem_free_of_parse h hi ht, decide_eq_true hnot⟩
    exact absurd (hswept.readAll _ hmem) (Nat.not_lt.2 hle)
  · have halike : l.Alike (l.readAll calls) := alike_readAll
    rw [← length_tokens, ← halike.2, length_tokens] at hlt
    exact current?_eq_none_iff hlt
  · obtain ⟨l', ⟨horigin', htokens⟩, -, -, hreading⟩ := exists_of_mem_readings hswept hr
    have hlength : l'.length = l.length := by rw [← length_tokens, htokens, length_tokens]
    rw [hreading] at hmissing ⊢
    refine ⟨(missing_reading_iff.1 hmissing).1, ?_⟩
    rw [hmissing.eq, horigin', horigin, hlength]
    exact ⟨rfl, rfl⟩

end

/-- Keyed arguments that are taken out from among positional ones, until one is missing. -/
theorem arguments_read_once_of_keyed :
    let l : Line := ⟨⟨"shop", "sell"⟩, "give 3 name:blade now iron sharp", "give",
      [⟨"3", false⟩, ⟨"name:blade", false⟩, ⟨"now", false⟩, ⟨"iron", false⟩, ⟨"sharp", false⟩], 0⟩
    let calls : List Call := [.optional "name", .nextInt, .flag "iron", .rest, .next]
    parse ⟨"shop", "sell"⟩ "give 3 name:blade now iron sharp" = .ok l ∧
    positions (l.readings calls) = [2, 1, 4, 3, 5] ∧ (positions (l.readings calls)).Nodup ∧
    positions (positional (l.readings calls)) = [1, 3, 5] ∧ (l.readAll calls).cursor = 5 ∧
    (l.readAll calls).unread = [] := by
  intro l calls
  have hparse : parse ⟨"shop", "sell"⟩ "give 3 name:blade now iron sharp" = .ok l := by rfl
  have hall : positions (l.readings calls) = [2, 1, 4, 3, 5] := by rfl
  have hpositional : positions (positional (l.readings calls)) = [1, 3, 5] := by rfl
  obtain ⟨hnodup, -, hunread, -, hcursor, -⟩ := arguments_read_once hparse calls
  refine ⟨hparse, hall, hnodup, hpositional, ?_, ?_⟩
  · rw [hcursor, hpositional]
    rfl
  · rw [hunread, hall]
    rfl

end Questbook.Line
