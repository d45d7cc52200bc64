/-
Questbook/Proofs/Engine/Payment.lean

Paying with what is held.

A condition with a list of items asks for each entry whether so many are held, and an event takes
the entries one after another, as far as there is something left.  Where several entries draw on one
stack the first question is weaker than the second one needs: each entry is held, and yet not all of
them together.  A payment is made in full if and only if the totals are held, and no two entries
sharing a stack is enough for that.

Main results: `held_items_taken`, `payment_falls_short`.
-/
import Questbook.Proofs.Engine.Items
import Questbook.Proofs.Engine.Perform
import Questbook.Proofs.Package.Evaluate

namespace Questbook

/-! ### Payments in full -/

namespace Avatar

variable {a : Avatar} {items : List Stack}

/-- How many items are taken for each entry: those that are gone afterwards. -/
def takings (a : Avatar) : List Stack → List Nat
  | [] => []
  | (item, amount) :: rest =>
    (a.count item.key - (a.take item.key amount).count item.key) ::
      (a.take item.key amount).takings rest

/-- Each entry is taken in full if and only if the totals are held. -/
theorem takings_eq_iff :
    a.takings items = items.map Prod.snd ↔ ∀ key, listed key items ≤ a.count key := by
  -- The first entry is taken in full if so many are held, and the others of what it leaves.
  induction items generalizing a with
  | nil => exact iff_of_true rfl fun key => Nat.zero_le _
  | cons s rest ih =>
    obtain ⟨item, amount⟩ := s
    rw [takings, List.map_cons, List.cons.injEq, ih]
    constructor
    · rintro ⟨hfirst, hrest⟩ key
      have hleft := hrest key
      rw [count_take] at hfirst hleft
      rw [listed_cons]
      by_cases hkey : item.key = key
      · subst hkey
        simp only [if_true] at *
        omega
      · simp only [if_neg hkey] at *
        omega
    · intro hall
      have hfirst := hall item.key
      rw [listed_cons, if_pos rfl] at hfirst
      refine ⟨?_, fun key => ?_⟩
      · rw [count_take, if_pos rfl]
        dsimp only at hfirst
        omega
      · have htotal := hall key
        rw [listed_cons] at htotal
        rw [count_take]
        dsimp only at htotal
        omega

end Avatar

/-- Where no two entries share a stack, the total of each is what it lists. -/
theorem listed_le_of_nodup {items : List Stack} {limit : String → Nat}
    (hdistinct : (items.map (·.1.key)).Nodup) (h : ∀ s ∈ items, s.2 ≤ limit s.1.key)
    (key : String) :
    listed key items ≤ limit key := by
  induction items with
  | nil => exact Nat.zero_le _
  | cons s rest ih =>
    rw [List.map_cons, List.nodup_cons] at hdistinct
    rw [List.forall_mem_cons] at h
    rw [listed_cons]
    by_cases hkey : s.1.key = key
    · subst hkey
      have hnone : listed s.1.key rest = 0 :=
        listed_eq_zero fun t ht hsame => hdistinct.1 (List.mem_map.2 ⟨t, ht, hsame⟩)
      rw [if_pos rfl, hnone]
      exact h.1
    · rw [if_neg hkey, Nat.zero_add]
      exact ih hdistinct.2 h.2

/-! ### Conditions and payments -/

/-- **What is held can be taken.**

Let a condition `item L` and an event `take L` be compiled in one package.  They are about the same
stacks, each of them of an amount between one and the largest of 32 bits.  Whenever the condition is
true for a player in the world:

* he has so many of each entry;
* firing the event takes place, and of the player changes nothing but his items;
* each count is lowered by the total that the list has for it, or to zero where he has fewer;
* every entry is taken in full if and only if he has the totals, and then each count is lowered by
  just its total;
* so it is whenever no two entries share a stack.
-/
theorem held_items_taken (i : Integrations) {sources : Sources} {package held paid : String}
    {line line' list : String} (hheld : sources.line? .condition ⟨package, held⟩ = some line)
    (htokens : Line.tokenize line = .ok ["item", list])
    (hpaid : sources.line? .event ⟨package, paid⟩ = some line')
    (htokens' : Line.tokenize line' = .ok ["take", list]) {c : Condition} {event : Event}
    (hc : (Packages.compile (Vocabulary.registry i) sources).get .condition ⟨package, held⟩ = .ok c)
    (hevent : (Packages.compile (Vocabulary.registry i) sources).get .event ⟨package, paid⟩ =
      .ok event) :
    ∃ items, c = .holding items ∧ event = ⟨[], .take items⟩ ∧
      (∀ s ∈ items, 0 < s.2 ∧ s.2 ≤ Decimal.maxUnsigned32) ∧
      ∀ n p e a, e.world.players.find? p = some a →
        (Act.attempt (c.check n p)).run e = .ok (.ok true, e) →
        (∀ s ∈ items, s.2 ≤ a.count s.1.key) ∧
        ∃ a', (Action.fire n p event).run e = .ok (true, e.joined p a') ∧ a.SameBut a' ∧
          (∀ key, a'.count key = a.count key - listed key items) ∧
          (a.takings items = items.map Prod.snd ↔ ∀ key, listed key items ≤ a.count key) ∧
          ((∀ key, listed key items ≤ a.count key) ↔
            ∀ key, a'.count key + listed key items = a.count key) ∧
          ((items.map (·.1.key)).Nodup → ∀ key, listed key items ≤ a.count key) := by
  obtain ⟨items, rfl, hspells⟩ := holding_written rfl hheld htokens hc
  obtain ⟨items', rfl, hspells'⟩ := pair_written rfl hpaid htokens' hevent
  -- An entry spells one stack only, whoever reads it.
  have hunique : Relator.RightUnique
      (Spells (Packages.compile (Vocabulary.registry i) sources) package) :=
    fun _ _ _ h h' => h.unique h'
  obtain rfl : items = items' := hunique.forall₂ hspells hspells'
  refine ⟨items, rfl, rfl, Spells.bounds hspells, fun n p e a honline hcheck => ?_⟩
  have heach : ∀ s ∈ items, s.2 ≤ a.count s.1.key := by
    rw [Condition.holding_run honline] at hcheck
    simpa using hcheck
  refine ⟨heach, a.takeAll items, Action.fire_take_run (AllMet.nil e) honline,
    a.sameBut_takeAll items, a.count_takeAll items, Avatar.takings_eq_iff, ?_, fun hdistinct =>
      listed_le_of_nodup hdistinct heach⟩
  refine forall_congr' fun key => ?_
  rw [Avatar.count_takeAll]
  omega

/-! ### A till -/

/-- Coins and gems, what one must have of them, and what is taken. -/
def till : Sources where
  packages := (∅ : Table String PackageSource).insert "till" { PackageSource.empty with
    items := .ofList [("coin", "gold_nugget"), ("gem", "emerald")]
    conditions := .ofList [("able", "item coin:3,gem"), ("rich", "item coin:3,coin:3")]
    events := .ofList [("buy", "take coin:3,gem"), ("pay", "take coin:3,coin:3")] }

theorem compile_till : Packages.compile (Vocabulary.registry ⟨true, true⟩) till =
    compileWithin (Vocabulary.registry ⟨true, true⟩) till 7 :=
  (compileWithin_eq (show 6 < 7 by decide) (by decide)).symm

/-- A player with four coins and a gem. -/
def buyer : Avatar :=
  { Avatar.fresh "Ann" (.ofSpot ⟨"world", 0, 64, 0⟩) with
    inventory := .ofList [("gold_nugget", 4), ("emerald", 1)] }

/-- A world with that player. -/
def counter : Engine := Engine.bare.joined ⟨"ann"⟩ buyer

theorem find?_counter : counter.world.players.find? ⟨"ann"⟩ = some buyer :=
  Engine.find?_joined _ _ _

/-- What the lines of the till list. -/
theorem till_evaluated :
    ((Packages.compile (Vocabulary.registry ⟨true, true⟩) till).held? ⟨"till", "able"⟩ =
        some [(⟨"gold_nugget", none⟩, 3), (⟨"emerald", none⟩, 1)] ∧
      (Packages.compile (Vocabulary.registry ⟨true, true⟩) till).taken? ⟨"till", "buy"⟩ =
        some [(⟨"gold_nugget", none⟩, 3), (⟨"emerald", none⟩, 1)]) ∧
    (Packages.compile (Vocabulary.registry ⟨true, true⟩) till).held? ⟨"till", "rich"⟩ =
        some [(⟨"gold_nugget", none⟩, 3), (⟨"gold_nugget", none⟩, 3)] ∧
      (Packages.compile (Vocabulary.registry ⟨true, true⟩) till).taken? ⟨"till", "pay"⟩ =
        some [(⟨"gold_nugget", none⟩, 3), (⟨"gold_nugget", none⟩, 3)] := by
  rw [compile_till]
  decide +kernel

/-- Three coins and a gem are held, and they are paid: a coin is left. -/
theorem held_items_taken_of_till : ∃ c event,
    (Packages.compile (Vocabulary.registry ⟨true, true⟩) till).get .condition ⟨"till", "able"⟩ =
      .ok c ∧
    (Packages.compile (Vocabulary.registry ⟨true, true⟩) till).get .event ⟨"till", "buy"⟩ =
      .ok event ∧
    (Act.attempt (c.check (nested 1) ⟨"ann"⟩)).run counter = .ok (.ok true, counter) ∧
    ∃ a', (Action.fire (nested 1) ⟨"ann"⟩ event).run counter =
        .ok (true, counter.joined ⟨"ann"⟩ a') ∧
      a'.count "gold_nugget" = 1 ∧ a'.count "emerald" = 0 := by
  have hable := Packages.get_of_held? till_evaluated.1.1
  have hbuy := Packages.get_of_taken? till_evaluated.1.2
  have hitem : Line.tokenize "item coin:3,gem" = .ok ["item", "coin:3,gem"] := by decide
  have htake : Line.tokenize "take coin:3,gem" = .ok ["take", "coin:3,gem"] := by decide
  obtain ⟨items, hitems, -, -, hpaid⟩ :=
    held_items_taken ⟨true, true⟩ rfl hitem rfl htake hable hbuy
  cases hitems
  have hcheck : (Act.attempt (Condition.check (nested 1) ⟨"ann"⟩ (.holding
      [(⟨"gold_nugget", none⟩, 3), (⟨"emerald", none⟩, 1)]))).run counter =
      .ok (.ok true, counter) := by
    rw [Condition.holding_run find?_counter]
    rfl
  obtain ⟨-, a', hfire, -, hcount, -⟩ := hpaid (nested 1) ⟨"ann"⟩ counter buyer find?_counter hcheck
  refine ⟨_, _, hable, hbuy, hcheck, a', hfire, ?_, ?_⟩
  · rw [hcount]
    decide
  · rw [hcount]
    decide

/-- **Four coins, held twice three.**  The condition is true of them, and of the six coins that the
event lists only four are taken. -/
theorem payment_falls_short : ∃ items,
    (Packages.compile (Vocabulary.registry ⟨true, true⟩) till).get .condition ⟨"till", "rich"⟩ =
      .ok (.holding items) ∧
    (Packages.compile (Vocabulary.registry ⟨true, true⟩) till).get .event ⟨"till", "pay"⟩ =
      .ok ⟨[], .take items⟩ ∧
    listed "gold_nugget" items = 6 ∧ buyer.count "gold_nugget" = 4 ∧
    (Act.attempt ((Condition.holding items).check (nested 1) ⟨"ann"⟩)).run counter =
      .ok (.ok true, counter) ∧
    ∃ a', (Action.fire (nested 1) ⟨"ann"⟩ ⟨[], .take items⟩).run counter =
        .ok (true, counter.joined ⟨"ann"⟩ a') ∧
      a'.count "gold_nugget" = 0 ∧ buyer.takings items = [3, 1] := by
  refine ⟨[(⟨"gold_nugget", none⟩, 3), (⟨"gold_nugget", none⟩, 3)],
    Packages.get_of_held? till_evaluated.2.1, Packages.get_of_taken? till_evaluated.2.2, by decide,
    by decide, ?_, _, Action.fire_take_run (AllMet.nil _) find?_counter, by decide, by decide⟩
  rw [Condition.holding_run find?_counter]
  rfl

end Questbook
