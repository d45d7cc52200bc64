/-
Questbook/Proofs/Engine/Items.lean

Items that are counted, given and taken.

Lists of items are worked through entry by entry, and entries may meet in one stack: an item may be
listed twice, and different items may be counted under one key.  What comes of a list is
nevertheless told by what it lists under each key in total (`listed`): giving adds the total and
taking subtracts it, as far as there is something left.  Only whether a list is held is asked of
each entry for itself.

Main results: `Action.fire_give_run` and `Action.fire_take_run` for the events, `holdsAll_run` for
the condition, `dealing_written` and `holding_written` for the lines that they are compiled from.
-/
import Questbook.Proofs.Engine.Logic
import Questbook.Proofs.Engine.Settling
import Questbook.Proofs.Line.Arguments
import Questbook.Proofs.Package.Written

namespace Questbook

/-! ### Totals -/

/-- How many items are listed under a key, all entries together. -/
def listed (key : String) : List Stack → Nat
  | [] => 0
  | s :: rest => (if s.1.key = key then s.2 else 0) + listed key rest

section

variable {key : String} {s : Stack} {items : List Stack}

@[simp] theorem listed_nil (key : String) : listed key [] = 0 := rfl

theorem listed_cons :
    listed key (s :: items) = (if s.1.key = key then s.2 else 0) + listed key items :=
  rfl

theorem listed_eq_zero (h : ∀ s ∈ items, s.1.key ≠ key) : listed key items = 0 := by
  induction items with
  | nil => rfl
  | cons s rest ih =>
    rw [List.forall_mem_cons] at h
    rw [listed_cons, if_neg h.1, ih h.2]

end

/-! ### Inventories -/

namespace Avatar

variable {a a' : Avatar} {key : String} {amount : Nat} {items : List Stack}

/-- A player with all of some items given, unless a count leaves its range. -/
def giveAll? (a : Avatar) (items : List Stack) : Option Avatar :=
  items.foldlM (fun a s => a.give? s.1.key s.2) a

/-- A player with all of some items taken, as far as he has them. -/
def takeAll (a : Avatar) (items : List Stack) : Avatar :=
  items.foldl (fun a s => a.take s.1.key s.2) a

theorem giveAll_cons (a : Avatar) (s : Stack) (rest : List Stack) :
    a.giveAll? (s :: rest) = (a.give? s.1.key s.2).bind (·.giveAll? rest) := rfl

theorem takeAll_cons (a : Avatar) (s : Stack) (rest : List Stack) :
    a.takeAll (s :: rest) = (a.take s.1.key s.2).takeAll rest := rfl

/-- Nothing of a player but his items may have changed. -/
def SameBut (a a' : Avatar) : Prop := ∃ inventory, a' = { a with inventory }

theorem SameBut.refl (a : Avatar) : a.SameBut a := ⟨a.inventory, rfl⟩

theorem SameBut.trans {a'' : Avatar} (h : a.SameBut a') (h' : a'.SameBut a'') : a.SameBut a'' := by
  obtain ⟨inventory, rfl⟩ := h
  obtain ⟨inventory', rfl⟩ := h'
  exact ⟨inventory', rfl⟩

theorem count_take (a : Avatar) (key : String) (amount : Nat) (other : String) :
    (a.take key amount).count other = a.count other - if key = other then amount else 0 := by
  unfold take count
  rw [Table.find?_insert]
  split
  · rename_i heq
    rw [heq]
    rfl
  · rfl

theorem give?_eq_some_iff : a.give? key amount = some a' ↔
    a.count key + amount ≤ Decimal.maxUnsigned32 ∧
      { a with inventory := a.inventory.insert key (a.count key + amount) } = a' := by
  unfold give?
  dsimp only
  split <;> simp [*]

theorem count_give (h : a.give? key amount = some a') (other : String) :
    a'.count other = a.count other + if key = other then amount else 0 := by
  obtain ⟨-, rfl⟩ := give?_eq_some_iff.1 h
  unfold count
  rw [Table.find?_insert]
  split
  · rename_i heq
    rw [heq]
    rfl
  · rfl

/-- Taking subtracts the total. -/
theorem count_takeAll (a : Avatar) (items : List Stack) (key : String) :
    (a.takeAll items).count key = a.count key - listed key items := by
  induction items generalizing a with
  | nil => rfl
  | cons s rest ih =>
    rw [takeAll_cons, ih, count_take, listed_cons, Nat.sub_sub]

theorem sameBut_takeAll (a : Avatar) (items : List Stack) : a.SameBut (a.takeAll items) := by
  induction items generalizing a with
  | nil => exact .refl a
  | cons s rest ih =>
    have htake : a.SameBut (a.take s.1.key s.2) := ⟨_, rfl⟩
    exact htake.trans (ih _)

/-- Giving adds the total. -/
theorem count_giveAll (h : a.giveAll? items = some a') (key : String) :
    a'.count key = a.count key + listed key items := by
  induction items generalizing a with
  | nil =>
    cases h
    rfl
  | cons s rest ih =>
    rw [giveAll_cons] at h
    obtain ⟨a₁, hgive, hrest⟩ := Option.bind_eq_some_iff.1 h
    rw [ih hrest, count_give hgive, listed_cons, Nat.add_assoc]

theorem sameBut_giveAll (h : a.giveAll? items = some a') : a.SameBut a' := by
  induction items generalizing a with
  | nil =>
    cases h
    exact .refl _
  | cons s rest ih =>
    rw [giveAll_cons] at h
    obtain ⟨a₁, hgive, hrest⟩ := Option.bind_eq_some_iff.1 h
    obtain ⟨-, rfl⟩ := give?_eq_some_iff.1 hgive
    exact SameBut.trans ⟨_, rfl⟩ (ih hrest)

/-- An inventory whose counts are in their range. -/
def Admitted (a : Avatar) : Prop := ∀ key, a.count key ≤ Decimal.maxUnsigned32

theorem Admitted.takeAll (h : a.Admitted) (items : List Stack) : (a.takeAll items).Admitted := by
  intro key
  rw [count_takeAll]
  exact (Nat.sub_le _ _).trans (h key)

/-- All of some items can be given if and only if all totals stay in range. -/
theorem exists_giveAll_iff (h : a.Admitted) : (∃ a', a.giveAll? items = some a') ↔
    ∀ key, a.count key + listed key items ≤ Decimal.maxUnsigned32 := by
  induction items generalizing a with
  | nil => exact iff_of_true ⟨a, rfl⟩ h
  | cons s rest ih =>
    -- Counts only grow, so that a first gift out of range is one too many for the totals as well.
    cases hgive : a.give? s.1.key s.2 with
    | none =>
      have hbeyond : ¬ a.count s.1.key + s.2 ≤ Decimal.maxUnsigned32 := by
        intro hle
        rw [give?_eq_some_iff.2 ⟨hle, rfl⟩] at hgive
        cases hgive
      rw [giveAll_cons, hgive]
      refine iff_of_false nofun fun hall => hbeyond ?_
      · have htotal := hall s.1.key
        rw [listed_cons, if_pos rfl] at htotal
        omega
    | some a₁ =>
      have hcount := count_give hgive
      have hadmitted : a₁.Admitted := by
        intro key
        obtain ⟨hle, -⟩ := give?_eq_some_iff.1 hgive
        rw [hcount]
        split
        · rename_i heq
          exact heq ▸ hle
        · exact h key
      rw [giveAll_cons, hgive, Option.bind_some, ih hadmitted]
      refine forall_congr' fun key => ?_
      rw [hcount, listed_cons, Nat.add_assoc]

end Avatar

/-! ### Events and the condition -/

section

variable {p : PlayerId} {e e₁ : Engine} {a : Avatar} {n : Nested} {conditions : List ConditionRef}
  {items : List Stack}

/-- An engine in which a player is what he has become. -/
def Engine.joined (e : Engine) (p : PlayerId) (a : Avatar) : Engine :=
  { e with world := e.world.join p a }

theorem Engine.joined_joined (e : Engine) (p : PlayerId) (a a' : Avatar) :
    (e.joined p a).joined p a' = e.joined p a' := by
  unfold joined World.join
  dsimp only
  rw [Table.insert_insert]

theorem Engine.joined_of_find? (h : e.world.players.find? p = some a) : e.joined p a = e := by
  unfold joined World.join
  rw [Table.insert_of_find? h]

theorem Engine.find?_joined (e : Engine) (p : PlayerId) (a : Avatar) :
    (e.joined p a).world.players.find? p = some a :=
  Table.find?_insert_self _ _ _

theorem Eval.avatar_run (h : e.world.players.find? p = some a) :
    (Act.attempt (Eval.avatar p)).run e = .ok (.ok a, e) := by
  have havatar : e.world.avatar p = .ok a := by
    unfold World.avatar
    rw [h]
  show (Act.attempt (Eval.ofExcept (e.world.avatar p))).run e = _
  rw [havatar]
  rfl

theorem Eval.take_run (h : e.world.players.find? p = some a) :
    (Act.attempt (Eval.take p items)).run e = .ok (.ok (), e.joined p (a.takeAll items)) := by
  induction items generalizing e a with
  | nil =>
    show (pure (.ok ()) : Act (Except EvalError Unit)).run e = .ok (.ok (), e.joined p a)
    rw [Engine.joined_of_find? h]
    rfl
  | cons s rest ih =>
    obtain ⟨item, amount⟩ := s
    have hchange : (Act.attempt (Eval.changeAvatar p (·.take item.key amount))).run e =
        .ok (.ok (), e.joined p (a.take item.key amount)) :=
      (Act.attempt_bind_of_ok (Eval.avatar_run h)).trans rfl
    refine (Act.attempt_bind_of_ok hchange).trans ?_
    rw [ih (Engine.find?_joined e p _), Engine.joined_joined]
    rfl

/-- Giving comes to an end unless a count leaves its range, which stops the engine. -/
theorem Eval.give_run (h : e.world.players.find? p = some a) :
    (Act.attempt (Eval.give p items)).run e =
      match a.giveAll? items with
      | some a' => .ok (.ok (), e.joined p a')
      | none => .error .overflow := by
  induction items generalizing e a with
  | nil =>
    show (pure (.ok ()) : Act (Except EvalError Unit)).run e = .ok (.ok (), e.joined p a)
    rw [Engine.joined_of_find? h]
    rfl
  | cons s rest ih =>
    obtain ⟨item, amount⟩ := s
    refine (Act.attempt_bind_of_ok (Eval.avatar_run h)).trans ?_
    rw [Avatar.giveAll_cons]
    cases hgive : a.give? item.key amount with
    | none => rfl
    | some a₁ =>
      have hjoin : (Act.attempt (Act.changeWorld (·.join p a₁) : Eval Unit)).run e =
          .ok (.ok (), e.joined p a₁) := rfl
      refine (Act.attempt_bind_of_ok hjoin).trans ?_
      rw [ih (Engine.find?_joined e p a₁), Option.bind_some]
      cases a₁.giveAll? rest with
      | none => rfl
      | some a' =>
        dsimp only
        rw [Engine.joined_joined]

/-- Items are held if each entry is, for itself. -/
theorem holdsAll_run (h : e.world.players.find? p = some a) :
    (Act.attempt (holdsAll p items)).run e =
      .ok (.ok (decide (∀ s ∈ items, s.2 ≤ a.count s.1.key)), e) := by
  induction items with
  | nil => rfl
  | cons s rest ih =>
    obtain ⟨item, amount⟩ := s
    refine (Act.attempt_bind_of_ok (Eval.avatar_run h)).trans ?_
    by_cases hheld : amount ≤ a.count item.key
    · rw [if_neg (Nat.not_lt_of_le hheld), ih]
      simp [hheld]
    · rw [if_pos (Nat.lt_of_not_le hheld)]
      simp [hheld]
      rfl

/-- An event whose conditions are met carries out its action, and has taken place if that ends. -/
theorem Action.fire_met (hmet : AllMet n p conditions e e₁) (action : Action) :
    (Action.fire n p ⟨conditions, action⟩).run e =
      (Act.attempt (action.perform n p) >>= fun _ => pure true).run e₁ := by
  unfold Action.fire
  rw [Act.run_bind_of_run hmet.run, if_pos rfl]
  show ((fun _ => ()) <$> Act.attempt (action.perform n p) >>= fun _ => pure true).run e₁ = _
  rw [bind_map_left]

theorem Action.fire_take_run (hmet : AllMet n p conditions e e₁)
    (h : e₁.world.players.find? p = some a) :
    (Action.fire n p ⟨conditions, .take items⟩).run e =
      .ok (true, e₁.joined p (a.takeAll items)) := by
  rw [Action.fire_met hmet, Action.perform, Act.run_bind_of_run (Eval.take_run h)]
  rfl

/-- Giving takes place unless a count leaves its range, which stops the engine. -/
theorem Action.fire_give_run (hmet : AllMet n p conditions e e₁)
    (h : e₁.world.players.find? p = some a) :
    (Action.fire n p ⟨conditions, .give items⟩).run e =
      match a.giveAll? items with
      | some a' => .ok (true, e₁.joined p a')
      | none => .error .overflow := by
  rw [Action.fire_met hmet, Action.perform, StateT.run_bind]
  have hgive : (Act.attempt (Eval.give p items)).run e₁ = _ := Eval.give_run h
  rw [hgive]
  cases a.giveAll? items <;> rfl

theorem Condition.holding_run (h : e.world.players.find? p = some a) :
    (Act.attempt ((Condition.holding items).check n p)).run e =
      .ok (.ok (decide (∀ s ∈ items, s.2 ≤ a.count s.1.key)), e) := by
  rw [Condition.check]
  exact holdsAll_run h

end

/-! ### Lines -/

/-- An entry of a list spells a stack: the item that its name leads to, and so many of it, one where
it does not say. -/
inductive Spells (K : Packages) (package entry : String) : Stack → Prop
  | one {d : Resolved .item} (hcut : Text.cut ':' entry = none)
      (hitem : K.resolve entry .item package = .ok d) : Spells K package entry (d.target, 1)
  | many {name amount : String} {n : Nat} {d : Resolved .item}
      (hcut : Text.cut ':' entry = some (name, amount))
      (hamount : Decimal.unsigned? Decimal.maxUnsigned32 amount = some n) (hpos : 0 < n)
      (hitem : K.resolve name .item package = .ok d) : Spells K package entry (d.target, n)

section

variable {K : Packages} {package entry : String} {s s' : Stack}

theorem Spells.pos (h : Spells K package entry s) : 0 < s.2 := by
  cases h with
  | one => exact Nat.one_pos
  | many _ _ hpos => exact hpos

theorem Spells.le (h : Spells K package entry s) : s.2 ≤ Decimal.maxUnsigned32 := by
  cases h with
  | one => exact Nat.succ_le_of_lt (Nat.succ_pos _)
  | many _ hamount => exact Vocabulary.unsigned?_le hamount

/-- Amounts of what is spelled are above zero and have 32 bits. -/
theorem Spells.bounds {entries : List String} {items : List Stack}
    (h : List.Forall₂ (Spells K package) entries items) :
    ∀ s ∈ items, 0 < s.2 ∧ s.2 ≤ Decimal.maxUnsigned32 := by
  induction h with
  | nil => exact nofun
  | cons hspells _ ih => exact List.forall_mem_cons.2 ⟨⟨hspells.pos, hspells.le⟩, ih⟩

theorem Spells.unique (h : Spells K package entry s) (h' : Spells K package entry s') : s = s' := by
  cases h with
  | one hcut hitem =>
    cases h' with
    | one _ hitem' =>
      rw [hitem] at hitem'
      cases hitem'
      rfl
    | many hcut' => cases hcut.symm.trans hcut'
  | many hcut hamount hpos hitem =>
    cases h' with
    | one hcut' => cases hcut.symm.trans hcut'
    | many hcut' hamount' _ hitem' =>
      cases hcut.symm.trans hcut'
      cases hamount.symm.trans hamount'
      rw [hitem] at hitem'
      cases hitem'
      rfl

end

section

variable {registry : Registry} {sources : Sources} {id : ObjectId}
  {package raw keyword list : String}
  {line : Line}

theorem item_met_iff_resolve {item : Item} :
    (Reference.item raw).Met sources package (grounded registry sources) item ↔
      ∃ d, (Packages.compile registry sources).resolve raw .item package = .ok d ∧
        item = d.target :=
  met_iff_resolve (r := .item raw) (t := item) rfl rfl

/-- What is drafted from an entry is what it spells. -/
theorem spells_of_stack {entry : String} {s : Stack}
    (h : (Draft.stack entry line).Succeeds sources package (grounded registry sources) s) :
    Spells (Packages.compile registry sources) package entry s := by
  unfold Draft.stack at h
  cases hcut : Text.cut ':' entry with
  | none =>
    rw [hcut] at h
    obtain ⟨item, hitem, rfl⟩ := Plan.exists_of_succeeds_map h
    obtain ⟨d, hresolve, rfl⟩ := item_met_iff_resolve.1 (Plan.met_of_refer hitem)
    exact .one hcut hresolve
  | some parts =>
    obtain ⟨name, amount⟩ := parts
    rw [hcut] at h
    dsimp only at h
    cases hamount : (Decimal.unsigned? Decimal.maxUnsigned32 amount).filter (0 < ·) with
    | none =>
      rw [hamount] at h
      exact h.elim
    | some n =>
      rw [hamount] at h
      obtain ⟨hread, hpos⟩ := Option.filter_eq_some_iff.1 hamount
      obtain ⟨item, hitem, rfl⟩ := Plan.exists_of_succeeds_map h
      obtain ⟨d, hresolve, rfl⟩ := item_met_iff_resolve.1 (Plan.met_of_refer hitem)
      exact .many hcut hread (of_decide_eq_true hpos) hresolve

theorem forall₂_of_nextStacks {items : List Stack}
    (h : (Draft.nextStacks line).Succeeds sources package (grounded registry sources) items) :
    ∃ token line', line.read Line.next = (.ok token, line') ∧
      List.Forall₂ (Spells (Packages.compile registry sources) package) (Text.listed token)
        items := by
  obtain ⟨entries, line', hentries, h⟩ := Plan.exists_of_succeeds_read h
  obtain ⟨token, line₁, hnext, hlist⟩ := Line.exists_of_read_bind hentries
  cases hlist
  by_cases hempty : (Text.listed token).isEmpty = true
  · rw [if_pos hempty] at h
    exact h.elim
  · rw [if_neg hempty] at h
    refine ⟨token, _, hnext, Plan.forall₂_of_succeeds_each (r := Draft.stack) ?_ h⟩
    exact fun entry l s hs => spells_of_stack hs

/-- A line of a keyword and a list, before anything of it is read. -/
def Line.pair (id : ObjectId) (raw keyword list : String) : Line :=
  ⟨id, raw, keyword, [⟨list, false⟩], 0⟩

theorem Line.eq_pair (htokens : Line.tokenize raw = .ok [keyword, list])
    (hline : Line.parse id raw = .ok line) : line = Line.pair id raw keyword list := by
  rw [Line.parse, htokens] at hline
  exact (Except.ok.inj hline).symm

theorem Line.read_next_pair (id : ObjectId) (raw keyword list : String) :
    ∃ line', (Line.pair id raw keyword list).read Line.next = (.ok list, line') := by
  rw [Line.read_next]
  exact ⟨_, rfl⟩

/-- A condition with a list of items is about what its entries spell. -/
theorem holding_written {c : Condition}
    (hdraft : registry.conditions.find? keyword = some (Condition.holding <$> Draft.nextStacks))
    (hraw : sources.line? .condition id = some raw)
    (htokens : Line.tokenize raw = .ok [keyword, list])
    (h : (Packages.compile registry sources).get .condition id = .ok c) :
    ∃ items, c = .holding items ∧ List.Forall₂
      (Spells (Packages.compile registry sources) id.package) (Text.listed list) items := by
  obtain ⟨raw', line, hraw', hline, hcondition⟩ := condition_written h
  obtain rfl := Option.some.inj (hraw.symm.trans hraw')
  obtain rfl := Line.eq_pair htokens hline
  have hkeyword : (Line.pair id raw keyword list).keyword = keyword := rfl
  unfold Registry.condition Registry.byKeyword at hcondition
  rw [hkeyword, hdraft] at hcondition
  obtain ⟨items, hitems, rfl⟩ := Plan.exists_of_succeeds_map hcondition
  obtain ⟨token, line', hnext, hspells⟩ := forall₂_of_nextStacks hitems
  obtain ⟨line₁, hlist⟩ := Line.read_next_pair id raw keyword list
  rw [hlist] at hnext
  cases hnext
  exact ⟨items, rfl, hspells⟩

/-- The list of a pair is taken by the gate if it has its key, and then nothing is left. -/
theorem Line.read_gate_pair {names : List String} {rest : Line}
    (h : (Line.pair id raw keyword list).read (Line.optionalList "conditions") =
      (.ok names, rest)) :
    (names = [] ∧ rest = Line.pair id raw keyword list) ∨
      rest.read Line.next = (.error (rest.errorAt rest.length .missingArgument), rest) := by
  cases hvalue : Line.valueOf? "conditions" list with
  | none =>
    have hread : (Line.pair id raw keyword list).read (Line.optionalList "conditions") =
        (.ok [], Line.pair id raw keyword list) := by
      rw [Line.optionalList, Line.read_bind, Line.optional, Line.read_get_bind]
      simp [Line.pair, Line.takeFirst, hvalue]
      rfl
    rw [hread] at h
    cases h
    exact .inl ⟨rfl, rfl⟩
  | some value =>
    -- The one argument has been taken, and none is left for the list.
    have hread : (Line.pair id raw keyword list).read (Line.optionalList "conditions") =
        (.ok (Text.listed value), ⟨id, raw, keyword, [⟨list, true⟩], 0⟩) := by
      rw [Line.optionalList, Line.read_bind, Line.optional, Line.read_get_bind]
      simp [Line.pair, Line.takeFirst, hvalue]
      rfl
    rw [hread] at h
    cases h
    right
    rw [Line.read_next]
    rfl

/-- An event with a list of items is about what the entries of that list spell: the first argument
that is left when the conditions of the event are taken out. -/
theorem dealing_written {make : List Stack → Action} {event : Event}
    (hdraft : registry.events.find? line.keyword = some (make <$> Draft.nextStacks))
    (hraw : sources.line? .event id = some raw) (hline : Line.parse id raw = .ok line)
    (h : (Packages.compile registry sources).get .event id = .ok event) :
    ∃ names rest token line' items,
      line.read (Line.optionalList "conditions") = (.ok names, rest) ∧
      List.Forall₂ (fun name c => (Reference.condition name).Met sources id.package
        (grounded registry sources) c) names event.conditions ∧
      rest.read Line.next = (.ok token, line') ∧ event.content = make items ∧
      List.Forall₂ (Spells (Packages.compile registry sources) id.package) (Text.listed token)
        items := by
  obtain ⟨raw', line₀, hraw', hline', hevent⟩ := event_written h
  obtain rfl := Option.some.inj (hraw.symm.trans hraw')
  obtain rfl := Except.ok.inj (hline.symm.trans hline')
  obtain ⟨names, rest, hgate, hkeyword, hconditions, hcontent⟩ := Registry.exists_of_event hevent
  unfold Registry.byKeyword at hcontent
  rw [hkeyword, hdraft] at hcontent
  obtain ⟨items, hitems, hmake⟩ := Plan.exists_of_succeeds_map hcontent
  obtain ⟨token, line', hnext, hspells⟩ := forall₂_of_nextStacks hitems
  exact ⟨names, rest, token, line', items, hgate, hconditions, hnext, hmake.symm, hspells⟩

/-- A pair is read as a list of items only if it is not taken for a list of conditions, and then the
event has none. -/
theorem pair_written {make : List Stack → Action} {event : Event}
    (hdraft : registry.events.find? keyword = some (make <$> Draft.nextStacks))
    (hraw : sources.line? .event id = some raw)
    (htokens : Line.tokenize raw = .ok [keyword, list])
    (h : (Packages.compile registry sources).get .event id = .ok event) :
    ∃ items, event = ⟨[], make items⟩ ∧ List.Forall₂
      (Spells (Packages.compile registry sources) id.package) (Text.listed list) items := by
  have hline : Line.parse id raw = .ok (Line.pair id raw keyword list) := by
    rw [Line.parse, htokens]
    rfl
  obtain ⟨names, rest, token, line', items, hgate, hconditions, hnext, hmake, hspells⟩ :=
    dealing_written hdraft hraw hline h
  rcases Line.read_gate_pair hgate with ⟨rfl, rfl⟩ | hmissing
  · obtain ⟨line₁, hlist⟩ := Line.read_next_pair id raw keyword list
    rw [hlist] at hnext
    cases hnext
    obtain ⟨conditions, content⟩ := event
    obtain rfl : conditions = [] := List.forall₂_nil_left_iff.1 hconditions
    obtain rfl : content = make items := hmake
    exact ⟨items, rfl, hspells⟩
  · rw [hmissing] at hnext
    cases hnext

end

/-! ### Reading compiled items off -/

namespace Packages

variable {K : Packages} {id : ObjectId} {items : List Stack}

/-- An item, if there is one of this name. -/
def item? (K : Packages) (id : ObjectId) : Option Item := (K.get .item id).toOption

/-- The stacks that a condition asks to be held, if it is such a condition. -/
def held? (K : Packages) (id : ObjectId) : Option (List Stack) :=
  match K.get .condition id with
  | .ok (.holding items) => some items
  | _ => none

/-- The stacks that an event gives, if it does nothing else. -/
def given? (K : Packages) (id : ObjectId) : Option (List Stack) :=
  match K.get .event id with
  | .ok ⟨[], .give items⟩ => some items
  | _ => none

/-- The stacks that an event takes, if it does nothing else. -/
def taken? (K : Packages) (id : ObjectId) : Option (List Stack) :=
  match K.get .event id with
  | .ok ⟨[], .take items⟩ => some items
  | _ => none

theorem get_of_item? {x : Item} (h : K.item? id = some x) : K.get .item id = .ok x := by
  unfold item? at h
  cases hget : K.get .item id with
  | error err =>
    rw [hget] at h
    cases h
  | ok y =>
    rw [hget] at h
    cases h
    rfl

theorem get_of_held? (h : K.held? id = some items) :
    K.get .condition id = .ok (.holding items) := by
  unfold held? at h
  split at h
  · rename_i hget
    cases h
    exact hget
  · cases h

theorem get_of_given? (h : K.given? id = some items) :
    K.get .event id = .ok ⟨[], .give items⟩ := by
  unfold given? at h
  split at h
  · rename_i hget
    cases h
    exact hget
  · cases h

theorem get_of_taken? (h : K.taken? id = some items) :
    K.get .event id = .ok ⟨[], .take items⟩ := by
  unfold taken? at h
  split at h
  · rename_i hget
    cases h
    exact hget
  · cases h

end Packages

end Questbook
