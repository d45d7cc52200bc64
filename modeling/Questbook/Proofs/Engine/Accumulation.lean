/-
Questbook/Proofs/Engine/Accumulation.lean

Counts over a run of events that give and take.

Each amount of a list has 32 bits, and so has each count of an inventory.  Amounts are checked one
by one when a line is compiled, whereas a count grows with all that is given, and the addition is
not checked before it is made: a count that would leave its range stops the engine.  Short of that,
counts are what a ledger of natural numbers says.

A deal is what an event that takes place gives or takes.  One deal changes each count as it is
booked (`Deal.fire_run`), and so does a run of them, by induction (`performAll_deals`).

Main results: `counts_follow_ledger`, `counts_overflow`.
-/
import Mathlib.Data.List.Infix
import Questbook.Proofs.Engine.Items
import Questbook.Proofs.Engine.Delays

namespace Questbook

/-! ### Deals -/

/-- Items that are given to a player, or taken from him. -/
inductive Deal where
  | give (items : List Stack)
  | take (items : List Stack)
deriving DecidableEq

namespace Deal

/-- The keyword of the events that deal so. -/
def keyword : Deal → String
  | give _ => "give"
  | take _ => "take"

/-- What is dealt in. -/
def items : Deal → List Stack
  | give items => items
  | take items => items

/-- What such an event does. -/
def action : Deal → Action
  | give items => .give items
  | take items => .take items

/-- What is left of a number of items of some key: giving adds, and taking subtracts down to
zero. -/
def book (key : String) (n : Nat) : Deal → Nat
  | give items => n + listed key items
  | take items => n - listed key items

/-- A player after a deal, if his counts stay in range meanwhile. -/
def result? (a : Avatar) : Deal → Option Avatar
  | give items => a.giveAll? items
  | take items => some (a.takeAll items)

variable {a a' : Avatar} {d : Deal}

theorem count_of_result? (h : d.result? a = some a') (key : String) :
    a'.count key = d.book key (a.count key) := by
  cases d with
  | give items => exact Avatar.count_giveAll h key
  | take items =>
    cases h
    exact a.count_takeAll items key

theorem sameBut_of_result? (h : d.result? a = some a') : a.SameBut a' := by
  cases d with
  | give items => exact Avatar.sameBut_giveAll h
  | take items =>
    cases h
    exact a.sameBut_takeAll items

/-- A deal is possible if and only if what it books is in range. -/
theorem exists_result?_iff (h : a.Admitted) :
    (∃ a', d.result? a = some a') ↔ ∀ key, d.book key (a.count key) ≤ Decimal.maxUnsigned32 := by
  cases d with
  | give items => exact Avatar.exists_giveAll_iff h
  | take items =>
    refine iff_of_true ⟨_, rfl⟩ fun key => ?_
    have hleft := h.takeAll items key
    rwa [Avatar.count_takeAll] at hleft

theorem admitted_of_result? (h : a.Admitted) (hd : d.result? a = some a') : a'.Admitted := by
  intro key
  rw [count_of_result? hd]
  exact (exists_result?_iff h).1 ⟨a', hd⟩ key

end Deal

/-- What deals leave of a number of items of some key, booked one after another. -/
def ledger (key : String) (n : Nat) (deals : List Deal) : Nat := 
  deals.foldl (fun n d => d.book key n) n

theorem ledger_cons (key : String) (n : Nat) (d : Deal) (deals : List Deal) :
    ledger key n (d :: deals) = ledger key (d.book key n) deals := rfl

namespace Avatar

variable {a a' : Avatar} {d : Deal} {deals : List Deal}

/-- The counts of a player bear some deals: the ledger stays in range all along. -/
def Bears (a : Avatar) (deals : List Deal) : Prop :=
  ∀ before, before <+: deals → ∀ key, ledger key (a.count key) before ≤ Decimal.maxUnsigned32

theorem bears_nil_iff : a.Bears [] ↔ a.Admitted := by
  refine ⟨fun h => h [] (List.prefix_refl _), fun h before hbefore => ?_⟩
  obtain rfl := List.prefix_nil.1 hbefore
  exact h

/-- Counts that bear a deal and others bear the others after it. -/
theorem bears_cons_iff (hd : d.result? a = some a') (h : a.Admitted) :
    a.Bears (d :: deals) ↔ a'.Bears deals := by
  have hbook : ∀ before key,
      ledger key (a.count key) (d :: before) = ledger key (a'.count key) before := by
    intro before key
    rw [ledger_cons, Deal.count_of_result? hd]
  constructor
  · intro hbears before hbefore key
    rw [← hbook]
    exact hbears _ ((List.prefix_cons_inj d).2 hbefore) key
  · intro hbears before hbefore key
    rcases List.prefix_cons_iff.1 hbefore with rfl | ⟨later, rfl, hlater⟩
    · exact h key
    · rw [hbook]
      exact hbears later hlater key

/-- Counts do not bear a deal that is not possible. -/
theorem not_bears_of_none (hd : d.result? a = none) (h : a.Admitted) : ¬ a.Bears (d :: deals) := by
  intro hbears
  have hfirst : [d] <+: d :: deals := ⟨deals, rfl⟩
  obtain ⟨a', hsome⟩ := (Deal.exists_result?_iff h).2 fun key => hbears [d] hfirst key
  rw [hd] at hsome
  cases hsome

end Avatar

/-! ### Firing -/

section

variable {n : Nested} {p : PlayerId} {e e₁ : Engine} {a : Avatar} {levels : Nat}
  {conditions : List ConditionRef}

/-- An event whose conditions are met makes its deal, or it stops the engine. -/
theorem Deal.fire_run (hmet : AllMet n p conditions e e₁) (h : e₁.world.players.find? p = some a)
    (d : Deal) : (Action.fire n p ⟨conditions, d.action⟩).run e =
      match d.result? a with
      | some a' => .ok (true, e₁.joined p a')
      | none => .error .overflow := by
  cases d with
  | give items => exact Action.fire_give_run hmet h
  | take items => exact Action.fire_take_run hmet h

/-- A deal takes place as it is booked if that is in range, and otherwise it stops the engine. -/
theorem Deal.fire_booked (hmet : AllMet n p conditions e e₁) (h : e₁.world.players.find? p = some a)
    (hadmitted : a.Admitted) (d : Deal) :
    ((∀ key, d.book key (a.count key) ≤ Decimal.maxUnsigned32) →
      ∃ a', (Action.fire n p ⟨conditions, d.action⟩).run e = .ok (true, e₁.joined p a') ∧
        a.SameBut a' ∧ a'.Admitted ∧ ∀ key, a'.count key = d.book key (a.count key)) ∧
    ((∃ key, Decimal.maxUnsigned32 < d.book key (a.count key)) →
      (Action.fire n p ⟨conditions, d.action⟩).run e = .error .overflow) := by
  rw [Deal.fire_run hmet h]
  have hpossible := exists_result?_iff (d := d) hadmitted
  cases hd : d.result? a with
  | none =>
    rw [hd] at hpossible
    refine ⟨fun hrange => ?_, fun _ => rfl⟩
    obtain ⟨a', hsome⟩ := hpossible.2 hrange
    cases hsome
  | some a' =>
    refine ⟨fun _ => ⟨a', rfl, sameBut_of_result? hd, admitted_of_result? hadmitted hd,
      count_of_result? hd⟩, ?_⟩
    rintro ⟨key, hbeyond⟩
    exact absurd (hpossible.1 ⟨a', hd⟩ key) (Nat.not_le_of_lt hbeyond)

/-- A gift that takes place lowers no count. -/
theorem le_count_of_fire_give {items : List Stack} {took : Bool} {e' : Engine}
    (hmet : AllMet n p conditions e e₁) (h : e₁.world.players.find? p = some a)
    (hfire : (Action.fire n p ⟨conditions, .give items⟩).run e = .ok (took, e')) :
    ∃ a', e'.world.players.find? p = some a' ∧ ∀ key, a.count key ≤ a'.count key := by
  rw [Action.fire_give_run hmet h] at hfire
  cases hgive : a.giveAll? items with
  | none =>
    rw [hgive] at hfire
    cases hfire
  | some a' =>
    rw [hgive] at hfire
    cases hfire
    refine ⟨a', Engine.find?_joined _ _ _, fun key => ?_⟩
    rw [Avatar.count_giveAll hgive]
    exact Nat.le_add_right _ _

/-- A command that fires an event for a player, which does nothing but to make a deal. -/
inductive Command.Deals (K : Packages) (p : PlayerId) : Command → Deal → Prop
  | fire {raw package : String} {event : Resolved .event} {d : Deal}
      (hresolve : K.resolve raw .event package = .ok event)
      (htarget : event.target = ⟨[], d.action⟩) :
      Command.Deals K p (.fire p raw package) d

theorem Act.resolving_run {α : Type} {raw package : String} {k : Kind} {d : Resolved k}
    (h : e.packages.resolve raw k package = .ok d) (f : Resolved k → Act α) :
    (Act.resolving raw k package f).run e =
      (Except.ok <$> f d : Act (Except NotFound α)).run e := by
  unfold Act.resolving
  rw [Act.run_get_bind, h]

/-- Where a deal is possible the command that makes it is carried out and the run goes on, and where
it is not the run is over. -/
theorem Command.Deals.performAll_cons {c : Command} {d : Deal} {rest : List Command}
    (hc : c.Deals e.packages p d) (h : e.world.players.find? p = some a) :
    Engine.performAll levels (c :: rest) e =
      match d.result? a with
      | some a' => Engine.performAll levels rest (e.joined p a')
      | none => .error .overflow := by
  obtain ⟨hresolve, htarget⟩ := hc
  rename_i raw package event
  have hfire := Deal.fire_run (n := nested levels) (.nil e) h d
  have hperform : e.perform levels (.fire p raw package) =
      match d.result? a with
      | some a' => .ok (.ok true, e.joined p a')
      | none => .error .overflow := by
    refine (Act.resolving_run hresolve fun d => Action.fire (nested levels) p d.target).trans ?_
    rw [StateT.run_map, htarget, hfire]
    cases d.result? a <;> rfl
  rw [Engine.performAll, hperform]
  cases d.result? a <;> rfl

/-- A run of deals follows the ledger as far as the counts bear it. -/
theorem performAll_deals {cs : List Command} {deals : List Deal}
    (hcs : List.Forall₂ (Command.Deals e.packages p) cs deals)
    (h : e.world.players.find? p = some a) (hadmitted : a.Admitted) :
    (a.Bears deals → ∃ a', Engine.performAll levels cs e = .ok (e.joined p a') ∧ a.SameBut a' ∧
      a'.Admitted ∧ ∀ key, a'.count key = ledger key (a.count key) deals) ∧
    (¬ a.Bears deals → Engine.performAll levels cs e = .error .overflow) := by
  -- The packages stay in force, so that the commands that are left make the deals that are left.
  induction cs generalizing e a deals with
  | nil =>
    cases hcs
    refine ⟨fun _ => ⟨a, ?_, .refl a, hadmitted, fun key => rfl⟩,
      fun hbears => absurd (Avatar.bears_nil_iff.2 hadmitted) hbears⟩
    rw [Engine.joined_of_find? h]
    rfl
  | cons c rest ih =>
    cases hcs with
    | cons hc hrest =>
      rename_i d later
      rw [hc.performAll_cons h]
      cases hd : d.result? a with
      | none =>
        exact ⟨fun hbears => absurd hbears (Avatar.not_bears_of_none hd hadmitted), fun _ => rfl⟩
      | some a₁ =>
        obtain ⟨hbear, hhalt⟩ := ih (e := e.joined p a₁) hrest (Engine.find?_joined e p a₁)
          (Deal.admitted_of_result? hadmitted hd)
        rw [Avatar.bears_cons_iff hd hadmitted]
        refine ⟨fun hbears => ?_, hhalt⟩
        obtain ⟨a', hrun, hsame, hadmitted', hcount⟩ := hbear hbears
        refine ⟨a', ?_, (Deal.sameBut_of_result? hd).trans hsame, hadmitted', fun key => ?_⟩
        · exact hrun.trans (congrArg Except.ok (Engine.joined_joined e p a₁ a'))
        · rw [hcount, ledger_cons, Deal.count_of_result? hd]

end

/-! ### Counts and the ledger -/

/-- **Counts follow the ledger until one leaves its range.**

The events that are compiled from lines `give L` and `take L` make deals of the stacks that `L`
spells, each of an amount between one and the largest of 32 bits.  For a player in the world, with
any counts of 32 bits:

* a deal of an event whose conditions are met takes place, changes nothing of him but his items, and
  leaves each count as it is booked, provided that this has 32 bits; otherwise the engine stops;
* what is taken is always in range, so that only a gift stops the engine, and a gift that takes
  place lowers no count;
* a run of deals ends, with each count as in the ledger, if the ledger has 32 bits all along;
  otherwise the engine stops.
-/
theorem counts_follow_ledger (i : Integrations) (sources : Sources) :
    (∀ id raw line event, sources.line? .event id = some raw → Line.parse id raw = .ok line →
      line.keyword = "give" ∨ line.keyword = "take" →
      (Packages.compile (Vocabulary.registry i) sources).get .event id = .ok event →
      ∃ (d : Deal) (token : String), d.keyword = line.keyword ∧ event.content = d.action ∧
        List.Forall₂ (Spells (Packages.compile (Vocabulary.registry i) sources) id.package)
          (Text.listed token) d.items ∧
        ∀ s ∈ d.items, 0 < s.2 ∧ s.2 ≤ Decimal.maxUnsigned32) ∧
    (∀ n p conditions (d : Deal) e e₁ a, AllMet n p conditions e e₁ →
      e₁.world.players.find? p = some a →
      a.Admitted →
      ((∀ key, d.book key (a.count key) ≤ Decimal.maxUnsigned32) →
        ∃ a', (Action.fire n p ⟨conditions, d.action⟩).run e = .ok (true, e₁.joined p a') ∧
          a.SameBut a' ∧ a'.Admitted ∧ ∀ key, a'.count key = d.book key (a.count key)) ∧
      ((∃ key, Decimal.maxUnsigned32 < d.book key (a.count key)) →
        (Action.fire n p ⟨conditions, d.action⟩).run e = .error .overflow) ∧
      ∀ items, (d = .take items → ∀ key, d.book key (a.count key) ≤ Decimal.maxUnsigned32) ∧
        (d = .give items → ∀ took e',
          (Action.fire n p ⟨conditions, d.action⟩).run e = .ok (took, e') →
          ∃ a', e'.world.players.find? p = some a' ∧ ∀ key, a.count key ≤ a'.count key)) ∧
    (∀ levels p e a cs deals, e.world.players.find? p = some a → a.Admitted →
      List.Forall₂ (Command.Deals e.packages p) cs deals →
      (a.Bears deals → ∃ a', Engine.performAll levels cs e = .ok (e.joined p a') ∧ a.SameBut a' ∧
        a'.Admitted ∧ ∀ key, a'.count key = ledger key (a.count key) deals) ∧
      (¬ a.Bears deals → Engine.performAll levels cs e = .error .overflow)) := by
  refine ⟨?_, ?_, ?_⟩
  · intro id raw line event hraw hline hkeyword hget
    rcases hkeyword with hgive | htake
    · have hdraft : (Vocabulary.registry i).events.find? line.keyword =
          some (Action.give <$> Draft.nextStacks) := by
        rw [hgive]
        rfl
      obtain ⟨-, -, token, -, items, -, -, -, hcontent, hspells⟩ :=
        dealing_written hdraft hraw hline hget
      exact ⟨.give items, token, hgive.symm, hcontent, hspells, Spells.bounds hspells⟩
    · have hdraft : (Vocabulary.registry i).events.find? line.keyword =
          some (Action.take <$> Draft.nextStacks) := by
        rw [htake]
        rfl
      obtain ⟨-, -, token, -, items, -, -, -, hcontent, hspells⟩ :=
        dealing_written hdraft hraw hline hget
      exact ⟨.take items, token, htake.symm, hcontent, hspells, Spells.bounds hspells⟩
  · intro n p conditions d e e₁ a hmet h hadmitted
    obtain ⟨hbooked, hhalt⟩ := Deal.fire_booked hmet h hadmitted d
    refine ⟨hbooked, hhalt, fun items => ⟨?_, ?_⟩⟩
    · rintro rfl
      exact (Deal.exists_result?_iff hadmitted).1 ⟨_, rfl⟩
    · rintro rfl took e' hfire
      exact le_count_of_fire_give hmet h hfire
  · intro levels p e a cs deals h hadmitted hcs
    exact performAll_deals hcs h hadmitted

/-! ### A vault -/

/-- Coins that are dealt in, few at a time or as many as a line can list. -/
def vault : Sources where
  packages := (∅ : Table String PackageSource).insert "vault" { PackageSource.empty with
    items := .ofList [("coin", "gold_nugget")]
    events := .ofList [("gain", "give coin:3,coin"), ("lot", "give coin:4294967295"),
      ("more", "give coin:4294967295,coin:1"), ("spend", "take coin:5")] }

theorem compile_vault : Packages.compile (Vocabulary.registry ⟨true, true⟩) vault =
    compileWithin (Vocabulary.registry ⟨true, true⟩) vault 6 :=
  (compileWithin_eq (show 5 < 6 by decide) (by decide)).symm

/-- A player with nothing. -/
def beggar : Avatar := Avatar.fresh "Ann" (.ofSpot ⟨"world", 0, 64, 0⟩)

/-- A world with that player, and the vault in force. -/
def opened : Engine :=
  { Engine.idle.joined ⟨"ann"⟩ beggar with
    packages := Packages.compile (Vocabulary.registry ⟨true, true⟩) vault }

/-- The deal of an event, if it does nothing else. -/
def Deal.ofEvent? : Event → Option Deal
  | ⟨[], .give items⟩ => some (.give items)
  | ⟨[], .take items⟩ => some (.take items)
  | _ => none

theorem Deal.eq_of_ofEvent? {event : Event} {d : Deal} (h : Deal.ofEvent? event = some d) :
    event = ⟨[], d.action⟩ := by
  unfold Deal.ofEvent? at h
  split at h <;> cases h <;> rfl

/-- The deal that an event of the vault comes to. -/
def vaultDeal? (name : String) : Option Deal :=
  match (compileWithin (Vocabulary.registry ⟨true, true⟩) vault 6).resolve name .event "vault" with
  | .ok event => Deal.ofEvent? event.target
  | .error _ => none

theorem vault_deals {name : String} {d : Deal} (h : vaultDeal? name = some d) :
    Command.Deals opened.packages ⟨"ann"⟩ (.fire ⟨"ann"⟩ name "vault") d := by
  have hopened : opened.packages = compileWithin (Vocabulary.registry ⟨true, true⟩) vault 6 :=
    compile_vault
  rw [hopened]
  unfold vaultDeal? at h
  split at h
  · rename_i event hresolve
    exact .fire hresolve (Deal.eq_of_ofEvent? h)
  · cases h

/-- The vault's events make the deals that their lines list, of which some are too many. -/
theorem vault_evaluated :
    (vaultDeal? "gain" = some (.give [(⟨"gold_nugget", none⟩, 3), (⟨"gold_nugget", none⟩, 1)]) ∧
      vaultDeal? "spend" = some (.take [(⟨"gold_nugget", none⟩, 5)])) ∧
    (Packages.compile (Vocabulary.registry ⟨true, true⟩) vault).diagnostics = [] ∧
    haltOf? (opened.perform 1 (.fire ⟨"ann"⟩ "more" "vault")) = some .overflow ∧
    haltOf? (Engine.performAll 1 [.fire ⟨"ann"⟩ "lot" "vault", .fire ⟨"ann"⟩ "gain" "vault"]
      opened) = some .overflow := by
  unfold opened
  rw [compile_vault]
  decide +kernel

/-- Four coins are gained, five are spent, and four are gained again: four are left. -/
theorem counts_follow_ledger_of_vault :
    ∃ a', Engine.performAll 1 [.fire ⟨"ann"⟩ "gain" "vault", .fire ⟨"ann"⟩ "spend" "vault",
        .fire ⟨"ann"⟩ "gain" "vault"] opened = .ok (opened.joined ⟨"ann"⟩ a') ∧
      beggar.count "gold_nugget" = 0 ∧ a'.count "gold_nugget" = 4 := by
  let coin : Item := ⟨"gold_nugget", none⟩
  let gain : Deal := .give [(coin, 3), (coin, 1)]
  let spend : Deal := .take [(coin, 5)]
  have hgain := vault_deals vault_evaluated.1.1
  have hspend := vault_deals vault_evaluated.1.2
  have hempty : ∀ key, beggar.count key = 0 := fun key => rfl
  have hadmitted : beggar.Admitted := fun key => Nat.zero_le _
  have hbears : beggar.Bears [gain, spend, gain] := by
    have hlisted : ∀ key, listed key [(coin, 3), (coin, 1)] ≤ 4 := by
      intro key
      by_cases hkey : coin.key = key <;> simp [listed_cons, hkey]
    intro before hbefore key
    have hmem := (List.mem_inits before _).2 hbefore
    simp only [List.inits, List.map_cons, List.map_nil, List.mem_cons,
      List.not_mem_nil, or_false] at hmem
    have hfour := hlisted key
    have hmax : Decimal.maxUnsigned32 = 4294967295 := rfl
    rcases hmem with rfl | rfl | rfl | rfl <;>
      simp only [ledger, List.foldl_cons, List.foldl_nil, Deal.book, hempty, gain, spend] <;> omega
  obtain ⟨-, -, hrun⟩ := counts_follow_ledger ⟨true, true⟩ vault
  have hplayer : opened.world.players.find? ⟨"ann"⟩ = some beggar := Engine.find?_joined _ _ _
  obtain ⟨a', hend, -, -, hcount⟩ := (hrun 1 ⟨"ann"⟩ opened beggar _ [gain, spend, gain] hplayer
    hadmitted (.cons hgain (.cons hspend (.cons hgain .nil)))).1 hbears
  refine ⟨a', hend, rfl, ?_⟩
  rw [hcount]
  decide

/-- **More than a count can hold.**  The events of the vault are compiled without a complaint.
Firing the one that lists so many coins that their total has more than 32 bits stops the engine, and
so does firing two whose amounts are too much together. -/
theorem counts_overflow :
    (Packages.compile (Vocabulary.registry ⟨true, true⟩) vault).diagnostics = [] ∧
    beggar.count "gold_nugget" = 0 ∧
    opened.perform 1 (.fire ⟨"ann"⟩ "more" "vault") = .error .overflow ∧
    Engine.performAll 1 [.fire ⟨"ann"⟩ "lot" "vault", .fire ⟨"ann"⟩ "gain" "vault"] opened =
      .error .overflow := by
  obtain ⟨-, hdiagnostics, hmore, hlot⟩ := vault_evaluated
  exact ⟨hdiagnostics, by decide, eq_error_of_haltOf? hmore, eq_error_of_haltOf? hlot⟩

end Questbook
