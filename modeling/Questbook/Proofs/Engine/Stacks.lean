/-
Questbook/Proofs/Engine/Stacks.lean

One stack for two items.

An inventory counts an item under a key: its material, and after a bar its name, where it has one.
No material is refused, whatever it has in it, and a bar in it is read as the one before a name.  So
`stone|x` without a name and `stone` with the name `x` are counted as one item, and in general two
items are if and only if they are equal or the material of one goes on after that of the other with
a bar and what begins the other's name.  Items whose keywords have no bar in them have a stack each.

Main results: `shared_stack_iff`, `stone_for_brick`.
-/
import Questbook.Proofs.Engine.Items
import Questbook.Proofs.Engine.Perform
import Questbook.Proofs.Package.Evaluate

namespace Questbook

/-! ### Keys -/

/-- Where one text can be cut at two bars, one of the two is the later one, and what stands between
them belongs to both. -/
theorem cut_twice {a b c d : String} (h : a ++ "|" ++ b = c ++ "|" ++ d) : (a = c ∧ b = d) ∨
    (∃ rest, a = c ++ "|" ++ rest ∧ d = rest ++ "|" ++ b) ∨
      ∃ rest, c = a ++ "|" ++ rest ∧ b = rest ++ "|" ++ d := by
  have hchars : a.toList ++ '|' :: b.toList = c.toList ++ '|' :: d.toList := by
    simpa [← String.toList_inj] using h
  simp only [← String.toList_inj, String.toList_append]
  rcases List.append_eq_append_iff.1 hchars with ⟨between, hc, hb⟩ | ⟨between, ha, hd⟩
  · cases between with
    | nil =>
      rw [List.nil_append, List.cons.injEq] at hb
      exact .inl ⟨by rw [hc, List.append_nil], hb.2⟩
    | cons bar rest =>
      rw [List.cons_append, List.cons.injEq] at hb
      obtain ⟨rfl, hb⟩ := hb
      exact .inr (.inr ⟨String.ofList rest, by simp [hc], by simp [hb]⟩)
  · cases between with
    | nil =>
      rw [List.nil_append, List.cons.injEq] at hd
      exact .inl ⟨by rw [ha, List.append_nil], hd.2.symm⟩
    | cons bar rest =>
      rw [List.cons_append, List.cons.injEq] at hd
      obtain ⟨rfl, hd⟩ := hd
      exact .inr (.inl ⟨String.ofList rest, by simp [ha], by simp [hd]⟩)

namespace Item

variable {x y : Item}

/-- The material of an item goes on after that of another, with a bar and what begins the other's
name. -/
def Prolongs (x y : Item) : Prop :=
  ∃ rest, x.material = y.material ++ "|" ++ rest ∧ y.name = some (key ⟨rest, x.name⟩)

theorem key_some (material name : String) :
    key ⟨material, some name⟩ = material ++ "|" ++ name := rfl

/-- What comes before a bar may be put before the material. -/
theorem key_append (head rest : String) (name : Option String) :
    key ⟨head ++ "|" ++ rest, name⟩ = head ++ "|" ++ key ⟨rest, name⟩ := by
  cases name with
  | none => rfl
  | some name => simp only [key_some, String.append_assoc]

theorem Prolongs.key_eq (h : x.Prolongs y) : x.key = y.key := by
  obtain ⟨rest, hmaterial, hname⟩ := h
  obtain ⟨material, name⟩ := x
  obtain ⟨material', name'⟩ := y
  obtain rfl : material = material' ++ "|" ++ rest := hmaterial
  obtain rfl : name' = some (key ⟨rest, name⟩) := hname
  rw [key_append, key_some]

theorem Prolongs.bar_mem (h : x.Prolongs y) : '|' ∈ x.material.toList := by
  obtain ⟨rest, hmaterial, -⟩ := h
  simp [hmaterial]

theorem key_eq_iff : x.key = y.key ↔ x = y ∨ x.Prolongs y ∨ y.Prolongs x := by
  constructor
  · intro h
    obtain ⟨material, name⟩ := x
    obtain ⟨material', name'⟩ := y
    cases name with
    | none =>
      cases name' with
      | none =>
        obtain rfl : material = material' := h
        exact .inl rfl
      | some name' => exact .inr (.inl ⟨name', h, rfl⟩)
    | some name =>
      cases name' with
      | none => exact .inr (.inr ⟨name, h.symm, rfl⟩)
      | some name' =>
        -- The first bar of one key may stand within the material or the name of the other.
        rcases cut_twice h with ⟨rfl, rfl⟩ | ⟨rest, rfl, rfl⟩ | ⟨rest, rfl, rfl⟩
        · exact .inl rfl
        · exact .inr (.inl ⟨rest, rfl, rfl⟩)
        · exact .inr (.inr ⟨rest, rfl, rfl⟩)
  · rintro (rfl | h | h)
    · rfl
    · exact h.key_eq
    · exact h.key_eq.symm

/-- Items whose materials have no bar are told apart by their keys. -/
theorem eq_of_key_eq (hx : '|' ∉ x.material.toList) (hy : '|' ∉ y.material.toList)
    (h : x.key = y.key) : x = y := by
  rcases key_eq_iff.1 h with heq | hprolongs | hprolongs
  · exact heq
  · exact absurd hprolongs.bar_mem hx
  · exact absurd hprolongs.bar_mem hy

end Item

/-! ### Lines -/

/-- The bar is no letter. -/
theorem Text.lowerChar_eq_bar_iff {c : Char} : lowerChar c = '|' ↔ c = '|' := by
  by_cases hcapital : 'A' ≤ c ∧ c ≤ 'Z'
  · obtain ⟨n, hn, rfl⟩ := exists_of_capital hcapital
    revert n
    decide
  · have hsame : lowerChar c = c := if_neg hcapital
    rw [hsame]

theorem Text.bar_mem_lower {s : String} : '|' ∈ (lower s).toList ↔ '|' ∈ s.toList := by
  simp [lower, lowerChar_eq_bar_iff]

/-- A line spells an item: its keyword is the material, whose letters are made small, and
underscores in the name that it gives are spaces. -/
def Item.Spelled (sources : Sources) (id : ObjectId) (keyword : String) (name : Option String)
    (x : Item) : Prop :=
  ∃ raw line rest, sources.line? .item id = some raw ∧ Line.parse id raw = .ok line ∧
    line.keyword = keyword ∧ line.read (Line.optional "name") = (.ok name, rest) ∧
    x = ⟨Text.lower keyword, name.map (Text.substitute '_' ' ')⟩

theorem Item.spelled_of_compile {registry : Registry} {sources : Sources} {id : ObjectId} {x : Item}
    (h : (Packages.compile registry sources).get .item id = .ok x) :
    ∃ keyword name, Item.Spelled sources id keyword name x := by
  obtain ⟨raw, line, hraw, hline, hitem⟩ := written_of_get rfl h
  obtain ⟨name, rest, hname, hitem⟩ := Plan.exists_of_succeeds_read hitem
  obtain ⟨material, _, hmaterial, hitem⟩ := Plan.exists_of_succeeds_read hitem
  cases hmaterial
  cases hitem
  exact ⟨line.keyword, name, raw, line, rest, hraw, hline, rfl, hname,
    by rw [Line.keyword_optional hname]⟩

theorem Item.Spelled.bar_mem_iff {sources : Sources} {id : ObjectId} {keyword : String}
    {name : Option String} {x : Item} (h : Item.Spelled sources id keyword name x) :
    '|' ∈ x.material.toList ↔ '|' ∈ keyword.toList := by
  obtain ⟨_, _, _, -, -, -, -, rfl⟩ := h
  exact Text.bar_mem_lower

/-! ### Stacks -/

section

variable {n : Nested} {p : PlayerId} {e e₁ e' : Engine} {a a' : Avatar}
  {conditions : List ConditionRef}
  {items : List Stack} {key : String} {answer : Bool}

/-- Giving items leaves a count alone that none of them has a share in. -/
theorem count_of_fire_give (hmet : AllMet n p conditions e e₁)
    (h : e₁.world.players.find? p = some a) (hapart : ∀ s ∈ items, s.1.key ≠ key)
    (hrun : (Action.fire n p ⟨conditions, .give items⟩).run e = .ok (answer, e')) :
    ∃ a', e' = e₁.joined p a' ∧ a'.count key = a.count key := by
  rw [Action.fire_give_run hmet h] at hrun
  split at hrun
  · rename_i a' hgive
    cases hrun
    refine ⟨a', rfl, ?_⟩
    rw [Avatar.count_giveAll hgive, listed_eq_zero hapart, Nat.add_zero]
  · cases hrun

theorem count_takeAll_of_apart (hapart : ∀ s ∈ items, s.1.key ≠ key) :
    (a.takeAll items).count key = a.count key := by
  rw [Avatar.count_takeAll, listed_eq_zero hapart, Nat.sub_zero]

/-- Whether items are held is read off their own counts. -/
theorem holding_of_count_eq (h : e.world.players.find? p = some a)
    (hcounts : ∀ s ∈ items, a'.count s.1.key = a.count s.1.key)
    (hrun : (Act.attempt ((Condition.holding items).check n p)).run e = .ok (.ok answer, e)) :
    (Act.attempt ((Condition.holding items).check n p)).run (e.joined p a') =
      .ok (.ok answer, e.joined p a') := by
  rw [Condition.holding_run h] at hrun
  rw [Condition.holding_run (Engine.find?_joined e p a')]
  cases hrun
  have hsame : (∀ s ∈ items, s.2 ≤ a'.count s.1.key) ↔ ∀ s ∈ items, s.2 ≤ a.count s.1.key :=
    forall₂_congr fun s hs => by rw [hcounts s hs]
  rw [decide_eq_decide.2 hsame]

end

/-- **Which items share a stack.**

Items are compiled from lines: the keyword is the material, with small letters, and underscores in
the name that is given beside it are spaces.  Two of them are counted under one key if and only if
they are equal, or the material of one goes on after that of the other with a bar and what begins
the other's name.  If neither keyword has a bar in it, they are only if both material and name are
equal.

As long as one is not counted under the key of the other, and whatever else is asked of an event:

* giving any amounts of the one, if it comes to an end, leaves the count of the other alone;
* so does taking it;
* whether it is held does not depend on how many there are of the other. -/
theorem shared_stack_iff (i : Integrations) {sources : Sources} {id id' : ObjectId} {x y : Item}
    (hx : (Packages.compile (Vocabulary.registry i) sources).get .item id = .ok x)
    (hy : (Packages.compile (Vocabulary.registry i) sources).get .item id' = .ok y) :
    ∃ keyword name keyword' name', Item.Spelled sources id keyword name x ∧
      Item.Spelled sources id' keyword' name' y ∧
      (x.key = y.key ↔ x = y ∨ x.Prolongs y ∨ y.Prolongs x) ∧
      ('|' ∉ keyword.toList → '|' ∉ keyword'.toList →
        (x.key = y.key ↔ x.material = y.material ∧ x.name = y.name)) ∧
      (x.key ≠ y.key → ∀ (items : List Stack), (∀ s ∈ items, s.1 = x) →
        ∀ n p conditions e e₁ a, AllMet n p conditions e e₁ →
          e₁.world.players.find? p = some a →
          (∀ answer e', (Action.fire n p ⟨conditions, .give items⟩).run e = .ok (answer, e') →
            ∃ a', e' = e₁.joined p a' ∧ a'.count y.key = a.count y.key) ∧
          (∃ a', (Action.fire n p ⟨conditions, .take items⟩).run e = .ok (true, e₁.joined p a') ∧
            a'.count y.key = a.count y.key) ∧
          ∀ answer a', (∀ key, key ≠ y.key → a'.count key = a.count key) →
            (Act.attempt ((Condition.holding items).check n p)).run e₁ = .ok (.ok answer, e₁) →
              (Act.attempt ((Condition.holding items).check n p)).run (e₁.joined p a') =
                .ok (.ok answer, e₁.joined p a')) := by
  obtain ⟨keyword, name, hspelled⟩ := Item.spelled_of_compile hx
  obtain ⟨keyword', name', hspelled'⟩ := Item.spelled_of_compile hy
  refine ⟨keyword, name, keyword', name', hspelled, hspelled', Item.key_eq_iff, ?_, ?_⟩
  · intro hbar hbar'
    rw [← Item.mk.injEq]
    exact ⟨Item.eq_of_key_eq (hspelled.bar_mem_iff.not.2 hbar) (hspelled'.bar_mem_iff.not.2 hbar'),
      congrArg Item.key⟩
  · intro hkeys items hitems n p conditions e e₁ a hmet honline
    have hapart : ∀ s ∈ items, s.1.key ≠ y.key := fun s hs => by rwa [hitems s hs]
    exact ⟨fun answer e' => count_of_fire_give hmet honline hapart,
      ⟨_, Action.fire_take_run hmet honline, count_takeAll_of_apart hapart⟩,
      fun answer a' hcounts => holding_of_count_eq honline fun s hs => hcounts _ (hapart s hs)⟩

/-! ### A shop -/

/-- Bricks and pebbles without a name, of different materials, and a stone with the name `x`. -/
def shop : Sources where
  packages := (∅ : Table String PackageSource).insert "shop" { PackageSource.empty with
    items := .ofList [("brick", "stone|x"), ("pebble", "Stone"), ("stone", "stone name:x")]
    conditions := .ofList [("has", "item stone")]
    events := .ofList [("gain", "give brick")] }

/-- What the built-in keywords make of the shop. -/
def compiledShop : Packages := Packages.compile (Vocabulary.registry ⟨true, true⟩) shop

theorem compiledShop_eq : compiledShop = compileWithin (Vocabulary.registry ⟨true, true⟩) shop 6 :=
  (compileWithin_eq (show 5 < 6 by decide) (by decide)).symm

/-- All that is to be had in the shop. -/
theorem shop_stock :
    compiledShop.get .item ⟨"shop", "brick"⟩ = .ok ⟨"stone|x", none⟩ ∧
    compiledShop.get .item ⟨"shop", "pebble"⟩ = .ok ⟨"stone", none⟩ ∧
    compiledShop.get .item ⟨"shop", "stone"⟩ = .ok ⟨"stone", some "x"⟩ ∧
    compiledShop.get .condition ⟨"shop", "has"⟩ = .ok (.holding [(⟨"stone", some "x"⟩, 1)]) ∧
    compiledShop.get .event ⟨"shop", "gain"⟩ = .ok ⟨[], .give [(⟨"stone|x", none⟩, 1)]⟩ := by
  have hstock : (compiledShop.item? ⟨"shop", "brick"⟩ = some ⟨"stone|x", none⟩ ∧
      compiledShop.item? ⟨"shop", "pebble"⟩ = some ⟨"stone", none⟩ ∧
      compiledShop.item? ⟨"shop", "stone"⟩ = some ⟨"stone", some "x"⟩) ∧
      compiledShop.held? ⟨"shop", "has"⟩ = some [(⟨"stone", some "x"⟩, 1)] ∧
      compiledShop.given? ⟨"shop", "gain"⟩ = some [(⟨"stone|x", none⟩, 1)] := by
    rw [compiledShop_eq]
    decide +kernel
  obtain ⟨⟨hbrick, hpebble, hstone⟩, hheld, hgiven⟩ := hstock
  exact ⟨Packages.get_of_item? hbrick, Packages.get_of_item? hpebble, Packages.get_of_item? hstone,
    Packages.get_of_held? hheld, Packages.get_of_given? hgiven⟩

/-- A player with so many pebbles. -/
def mason (pebbles : Nat) : Avatar :=
  { Avatar.fresh "Ann" (.ofSpot ⟨"world", 0, 64, 0⟩) with
    inventory := .ofList [("stone", pebbles)] }

/-- A world with that player. -/
def stall (pebbles : Nat) : Engine := Engine.bare.joined ⟨"ann"⟩ (mason pebbles)

theorem find?_stall (pebbles : Nat) :
    (stall pebbles).world.players.find? ⟨"ann"⟩ = some (mason pebbles) :=
  Engine.find?_joined _ _ _

/-- Pebbles and stones with a name have a stack each: a pebble is taken, and there are as many
stones as before. -/
theorem shared_stack_iff_of_pebble :
    compiledShop.get .item ⟨"shop", "pebble"⟩ = .ok ⟨"stone", none⟩ ∧
    compiledShop.get .item ⟨"shop", "stone"⟩ = .ok ⟨"stone", some "x"⟩ ∧
    (Item.mk "stone" none).key ≠ (Item.mk "stone" (some "x")).key ∧
    ∃ a', (Action.fire (nested 1) ⟨"ann"⟩ ⟨[], .take [(⟨"stone", none⟩, 1)]⟩).run (stall 3) =
        .ok (true, (stall 3).joined ⟨"ann"⟩ a') ∧
      a'.count "stone|x" = (mason 3).count "stone|x" := by
  obtain ⟨-, hget, hget', -⟩ := shop_stock
  obtain ⟨_, _, _, _, hpebble, hstone, -, hapart, hdeals⟩ :=
    shared_stack_iff ⟨true, true⟩ hget hget'
  have hkeys : (Item.mk "stone" none).key ≠ (Item.mk "stone" (some "x")).key := by
    rw [Ne, hapart (hpebble.bar_mem_iff.not.1 (by decide)) (hstone.bar_mem_iff.not.1 (by decide))]
    exact fun h => nomatch h.2
  obtain ⟨-, htake, -⟩ := hdeals hkeys [(⟨"stone", none⟩, 1)] (by simp) (nested 1) ⟨"ann"⟩ []
    (stall 3) (stall 3) (mason 3) (.nil _) (find?_stall 3)
  exact ⟨hget, hget', hkeys, htake⟩

/-- **A brick that counts as a stone.**  The two items are compiled, differ in material and in name,
and are counted under one key.  A player without a stone is given a brick, and has a stone. -/
theorem stone_for_brick :
    compiledShop.get .item ⟨"shop", "brick"⟩ = .ok ⟨"stone|x", none⟩ ∧
    compiledShop.get .item ⟨"shop", "stone"⟩ = .ok ⟨"stone", some "x"⟩ ∧
    (Item.mk "stone|x" none).key = (Item.mk "stone" (some "x")).key ∧
    ∃ c event e, compiledShop.get .condition ⟨"shop", "has"⟩ = .ok c ∧
      compiledShop.get .event ⟨"shop", "gain"⟩ = .ok event ∧
      (Act.attempt (c.check (nested 1) ⟨"ann"⟩)).run (stall 0) = .ok (.ok false, stall 0) ∧
      (Action.fire (nested 1) ⟨"ann"⟩ event).run (stall 0) = .ok (true, e) ∧
      (Act.attempt (c.check (nested 1) ⟨"ann"⟩)).run e = .ok (.ok true, e) := by
  obtain ⟨hbrick, -, hstone, hcondition, hevent⟩ := shop_stock
  obtain ⟨a', hgive⟩ : ∃ a', (mason 0).giveAll? [(⟨"stone|x", none⟩, 1)] = some a' := ⟨_, rfl⟩
  have hcount : a'.count "stone|x" = 1 := by
    rw [Avatar.count_giveAll hgive]
    decide
  refine ⟨hbrick, hstone, by decide, _, _, (stall 0).joined ⟨"ann"⟩ a', hcondition, hevent, ?_, ?_,
    ?_⟩
  · rw [Condition.holding_run (find?_stall 0)]
    rfl
  · rw [Action.fire_give_run (.nil _) (find?_stall 0), hgive]
  · rw [Condition.holding_run (Engine.find?_joined _ _ a')]
    have hheld : (∀ s ∈ [((⟨"stone", some "x"⟩ : Item), 1)], s.2 ≤ a'.count s.1.key) := by
      rw [List.forall_mem_singleton]
      exact hcount.ge
    rw [decide_eq_true hheld]

end Questbook
