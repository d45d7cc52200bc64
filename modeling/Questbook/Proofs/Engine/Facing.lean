/-
Questbook/Proofs/Engine/Facing.lean

The sectors of the circle.

The direction of a level gaze is found by a chain of bounds on its yaw, taken round the circle.
With exact arithmetic the circle falls into four sectors, and south is cut in two by zero degrees:

    south 0 to 45,  west to 135,  north to 225,  east to 325,  south to 360

The last bound stands ten degrees off the corner of the circle.  East has a hundred degrees at the
expense of south, which has eighty, and a quarter turn is a step of the compass if and only if
neither of the two gazes lies in the ten degrees that are east where the other corners would have
them south.

Main results: `directions_by_sector`, `quarter_turn_stays_east`.
-/
import Mathlib
import Questbook.Proofs.Engine.Items

namespace Questbook

open MeasureTheory

/-- Angles with exact arithmetic. -/
noncomputable instance : Angle ℝ where
  degrees n := n
  below a b := decide (a < b)
  round := toIcoMod (show (0 : ℝ) < 360 by norm_num) 0

namespace Direction

/-- The direction after a quarter turn to the right. -/
def turned : Direction → Direction
  | south => west
  | west => north
  | north => east
  | east => south
  | up => up
  | down => down

/-- The sectors of the circle. -/
noncomputable def sector (x : ℝ) : Direction :=
  if x < 45 then south
  else if x < 135 then west
  else if x < 225 then north
  else if x < 325 then east
  else south

variable {x yaw pitch : ℝ}

/-! ### Round the circle -/

theorem round_eq_iff {r : ℝ} :
    Angle.round yaw = r ↔ (0 ≤ r ∧ r < 360) ∧ ∃ k : ℤ, yaw = r + k * 360 := by
  show toIcoMod (show (0 : ℝ) < 360 by norm_num) 0 yaw = r ↔ _
  simp only [toIcoMod_eq_iff, Set.mem_Ico, zero_add, zsmul_eq_mul]

theorem round_mem (yaw : ℝ) : 0 ≤ Angle.round yaw ∧ Angle.round yaw < 360 :=
  (round_eq_iff.1 rfl).1

theorem round_of_mem (h : 0 ≤ yaw) (h' : yaw < 360) : Angle.round yaw = yaw :=
  round_eq_iff.2 ⟨⟨h, h'⟩, 0, by simp⟩

theorem round_add_turns (yaw : ℝ) (k : ℤ) : Angle.round (yaw + k * 360) = Angle.round yaw := by
  obtain ⟨hmem, m, hm⟩ := round_eq_iff.1 (rfl : Angle.round yaw = Angle.round yaw)
  refine round_eq_iff.2 ⟨hmem, m + k, ?_⟩
  push_cast
  linarith

/-- A quarter turn from the last quarter of the circle leads into its first. -/
theorem round_add_quarter (yaw : ℝ) : Angle.round (yaw + 90) =
    if Angle.round yaw < 270 then Angle.round yaw + 90 else Angle.round yaw - 270 := by
  obtain ⟨⟨hlow, hhigh⟩, k, hk⟩ := round_eq_iff.1 (rfl : Angle.round yaw = Angle.round yaw)
  split
  · exact round_eq_iff.2 ⟨⟨by linarith, by linarith⟩, k, by linarith⟩
  · refine round_eq_iff.2 ⟨⟨by linarith, by linarith⟩, k + 1, ?_⟩
    push_cast
    linarith

/-! ### Sectors -/

theorem ofAngles_level (hlow : -60 ≤ pitch) (hhigh : pitch ≤ 60) (yaw : ℝ) :
    ofAngles yaw pitch = sector (Angle.round yaw) := by
  have hdown : Angle.below (Angle.degrees 60) pitch = false :=
    decide_eq_false (by simpa [Angle.degrees] using hhigh)
  have hup : Angle.below pitch (Angle.degrees (-60)) = false :=
    decide_eq_false (by simpa [Angle.degrees] using hlow)
  have hbound : ∀ n : ℤ, (Angle.below (Angle.round yaw) (Angle.degrees n) = true) =
      (Angle.round yaw < (n : ℝ)) := fun n => decide_eq_true_eq
  unfold ofAngles sector
  simp only [hdown, hup, hbound]
  norm_num

theorem sector_south_first (h : x < 45) : sector x = south := if_pos h

theorem sector_west (h : 45 ≤ x) (h' : x < 135) : sector x = west := by
  rw [sector, if_neg h.not_gt, if_pos h']

theorem sector_north (h : 135 ≤ x) (h' : x < 225) : sector x = north := by
  rw [sector, if_neg (by linarith), if_neg h.not_gt, if_pos h']

theorem sector_east (h : 225 ≤ x) (h' : x < 325) : sector x = east := by
  rw [sector, if_neg (by linarith), if_neg (by linarith), if_neg h.not_gt, if_pos h']

theorem sector_south_last (h : 325 ≤ x) : sector x = south := by
  rw [sector, if_neg (by linarith), if_neg (by linarith), if_neg (by linarith), if_neg h.not_gt]

theorem sector_cases (x : ℝ) : (x < 45 ∧ sector x = south) ∨ (45 ≤ x ∧ x < 135 ∧ sector x = west) ∨
    (135 ≤ x ∧ x < 225 ∧ sector x = north) ∨ (225 ≤ x ∧ x < 325 ∧ sector x = east) ∨
      (325 ≤ x ∧ sector x = south) := by
  rcases lt_or_ge x 45 with h₁ | h₁
  · exact .inl ⟨h₁, sector_south_first h₁⟩
  rcases lt_or_ge x 135 with h₂ | h₂
  · exact .inr (.inl ⟨h₁, h₂, sector_west h₁ h₂⟩)
  rcases lt_or_ge x 225 with h₃ | h₃
  · exact .inr (.inr (.inl ⟨h₂, h₃, sector_north h₂ h₃⟩))
  rcases lt_or_ge x 325 with h₄ | h₄
  · exact .inr (.inr (.inr (.inl ⟨h₃, h₄, sector_east h₃ h₄⟩)))
  · exact .inr (.inr (.inr (.inr ⟨h₄, sector_south_last h₄⟩)))

theorem sector_eq_south_iff : sector x = south ↔ x < 45 ∨ 325 ≤ x := by
  rcases sector_cases x with h | h | h | h | h <;> grind

theorem sector_eq_west_iff : sector x = west ↔ 45 ≤ x ∧ x < 135 := by
  rcases sector_cases x with h | h | h | h | h <;> grind

theorem sector_eq_north_iff : sector x = north ↔ 135 ≤ x ∧ x < 225 := by
  rcases sector_cases x with h | h | h | h | h <;> grind

theorem sector_eq_east_iff : sector x = east ↔ 225 ≤ x ∧ x < 325 := by
  rcases sector_cases x with h | h | h | h | h <;> grind

/-- The quarter turns that are a step of the compass. -/
theorem sector_quarter_iff (hlow : 0 ≤ x) (hhigh : x < 360) :
    sector (if x < 270 then x + 90 else x - 270) = (sector x).turned ↔
      ¬ (225 ≤ x ∧ x < 235) ∧ ¬ (315 ≤ x ∧ x < 325) := by
  rcases sector_cases x with ⟨h, hx⟩ | ⟨h, h', hx⟩ | ⟨h, h', hx⟩ | ⟨h, h', hx⟩ | ⟨h, hx⟩
  · rw [hx, if_pos (by linarith)]
    exact iff_of_true (sector_west (by linarith) (by linarith))
      ⟨fun hq => by linarith [hq.1], fun hq => by linarith [hq.1]⟩
  · rw [hx, if_pos (by linarith)]
    exact iff_of_true (sector_north (by linarith) (by linarith))
      ⟨fun hq => by linarith [hq.1], fun hq => by linarith [hq.1]⟩
  · rw [hx, if_pos (by linarith)]
    exact iff_of_true (sector_east (by linarith) (by linarith))
      ⟨fun hq => by linarith [hq.1], fun hq => by linarith [hq.1]⟩
  · -- From the east a quarter turn should lead to the south, and does not at both ends of it.
    rw [hx, turned, sector_eq_south_iff]
    split <;> grind
  · rw [hx, if_neg (by linarith)]
    exact iff_of_true (sector_west (by linarith) (by linarith))
      ⟨fun hq => by linarith [hq.2], fun hq => by linarith [hq.2]⟩

/-! ### Widths -/

/-- Within one turn a level gaze is told by its yaw as it is. -/
theorem setOf_ofAngles (hlow : -60 ≤ pitch) (hhigh : pitch ≤ 60) (d : Direction) :
    {yaw ∈ Set.Ico (0 : ℝ) 360 | ofAngles yaw pitch = d} =
      {yaw ∈ Set.Ico (0 : ℝ) 360 | sector yaw = d} := by
  ext yaw
  refine and_congr_right fun hyaw => ?_
  rw [ofAngles_level hlow hhigh, round_of_mem hyaw.1 hyaw.2]

/-- The width of a sector in one piece. -/
theorem volume_sector {d : Direction} {low high : ℝ} (hlow : 0 ≤ low) (hhigh : high ≤ 360)
    (hd : ∀ yaw, sector yaw = d ↔ low ≤ yaw ∧ yaw < high) :
    volume {yaw ∈ Set.Ico (0 : ℝ) 360 | sector yaw = d} = ENNReal.ofReal (high - low) := by
  have hset : {yaw ∈ Set.Ico (0 : ℝ) 360 | sector yaw = d} = Set.Ico low high := by
    ext yaw
    simp only [hd, Set.mem_ofPred_eq, Set.mem_Ico]
    grind
  rw [hset, Real.volume_Ico]

/-- Zero degrees cut south in two. -/
theorem volume_south : volume {yaw ∈ Set.Ico (0 : ℝ) 360 | sector yaw = south} = 80 := by
  have hset : {yaw ∈ Set.Ico (0 : ℝ) 360 | sector yaw = south} =
      Set.Ico 0 45 ∪ Set.Ico 325 360 := by
    ext yaw
    simp only [sector_eq_south_iff, Set.mem_ofPred_eq, Set.mem_union, Set.mem_Ico]
    grind
  have hdisjoint : Disjoint (Set.Ico (0 : ℝ) 45) (Set.Ico 325 360) :=
    Set.disjoint_left.2 fun yaw h h' => by linarith [h.2, h'.1]
  rw [hset, measure_union hdisjoint measurableSet_Ico, Real.volume_Ico, Real.volume_Ico,
    ← ENNReal.ofReal_add (by norm_num) (by norm_num)]
  norm_num

end Direction

open Direction

/-! ### Directions -/

theorem Condition.facing_run {n : Nested} {p : PlayerId} {e : Engine} {a : Avatar}
    (h : e.world.players.find? p = some a) (d : Direction) :
    (Act.attempt ((Condition.facing d).check n p)).run e =
      .ok (.ok (decide (ofAngles a.location.yaw a.location.pitch = d)), e) := by
  rw [Condition.check]
  exact (Act.attempt_bind_of_ok (Eval.avatar_run h)).trans rfl

/-- **A level gaze goes by sectors of the circle.**

A condition on the direction of a player who is in the world is true if this is the direction of his
angles.  With exact arithmetic, for a pitch from -60 to 60 and any yaw:

* whole turns change nothing;
* a quarter turn is a step from south to west, north, east and south again if and only if the yaw,
  taken round the circle, is neither from 225 to 235 nor from 315 to 325;
* the direction is south below 45 and from 325 on, and between them west, north and east, with
  bounds at 135 and 225;
* of the circle, south has 80 degrees, west and north have 90 each, and east has 100.
-/
theorem directions_by_sector {pitch : ℝ} (hlow : -60 ≤ pitch) (hhigh : pitch ≤ 60) :
    (∀ n p e a d, e.world.players.find? p = some a →
      (Act.attempt ((Condition.facing d).check n p)).run e =
        .ok (.ok (decide (ofAngles a.location.yaw a.location.pitch = d)), e)) ∧
    (∀ (yaw : ℝ) (k : ℤ), ofAngles (yaw + k * 360) pitch = ofAngles yaw pitch) ∧
    (∀ yaw : ℝ, ofAngles (yaw + 90) pitch = (ofAngles yaw pitch).turned ↔
      ¬ (225 ≤ Angle.round yaw ∧ Angle.round yaw < 235) ∧
        ¬ (315 ≤ Angle.round yaw ∧ Angle.round yaw < 325)) ∧
    (∀ yaw : ℝ, (ofAngles yaw pitch = south ↔ Angle.round yaw < 45 ∨ 325 ≤ Angle.round yaw) ∧
      (ofAngles yaw pitch = west ↔ 45 ≤ Angle.round yaw ∧ Angle.round yaw < 135) ∧
      (ofAngles yaw pitch = north ↔ 135 ≤ Angle.round yaw ∧ Angle.round yaw < 225) ∧
      (ofAngles yaw pitch = east ↔ 225 ≤ Angle.round yaw ∧ Angle.round yaw < 325)) ∧
    volume {yaw ∈ Set.Ico (0 : ℝ) 360 | ofAngles yaw pitch = south} = 80 ∧
    volume {yaw ∈ Set.Ico (0 : ℝ) 360 | ofAngles yaw pitch = west} = 90 ∧
    volume {yaw ∈ Set.Ico (0 : ℝ) 360 | ofAngles yaw pitch = north} = 90 ∧
    volume {yaw ∈ Set.Ico (0 : ℝ) 360 | ofAngles yaw pitch = east} = 100 := by
  refine ⟨fun n p e a d h => Condition.facing_run h d, ?_⟩
  rw [setOf_ofAngles hlow hhigh, setOf_ofAngles hlow hhigh, setOf_ofAngles hlow hhigh,
    setOf_ofAngles hlow hhigh]
  simp only [ofAngles_level hlow hhigh]
  refine ⟨fun yaw k => by rw [round_add_turns], fun yaw => ?_, fun yaw => ⟨sector_eq_south_iff,
    sector_eq_west_iff, sector_eq_north_iff, sector_eq_east_iff⟩, volume_south, ?_, ?_, ?_⟩
  · rw [round_add_quarter]
    exact sector_quarter_iff (round_mem yaw).1 (round_mem yaw).2
  · rw [volume_sector (by norm_num) (by norm_num) fun _ => sector_eq_west_iff]
    norm_num
  · rw [volume_sector (by norm_num) (by norm_num) fun _ => sector_eq_north_iff]
    norm_num
  · rw [volume_sector (by norm_num) (by norm_num) fun _ => sector_eq_east_iff]
    norm_num

/-- A player with a level gaze. -/
def onlooker (yaw : Float32) : Avatar := Avatar.fresh "Ann" ⟨⟨"world", 0, 64, 0⟩, yaw, 0⟩

/-- A world with that player. -/
def lookout (yaw : Float32) : Engine := Engine.bare.joined ⟨"ann"⟩ (onlooker yaw)

theorem find?_lookout (yaw : Float32) :
    (lookout yaw).world.players.find? ⟨"ann"⟩ = some (onlooker yaw) :=
  Engine.find?_joined _ _ _

/-- A gaze at 100 degrees is west, and turned by a quarter it is north. -/
theorem directions_by_sector_of_west :
    (Act.attempt ((Condition.facing west).check (nested 1) ⟨"ann"⟩)).run (lookout 100) =
      .ok (.ok true, lookout 100) ∧
    ofAngles (100 : ℝ) 30 = west ∧ ofAngles (100 + 90 : ℝ) 30 = north := by
  have hlow : (-60 : ℝ) ≤ 30 := by norm_num
  have hhigh : (30 : ℝ) ≤ 60 := by norm_num
  obtain ⟨hfacing, -, hturn, hsector, -⟩ := directions_by_sector hlow hhigh
  have hround : Angle.round (100 : ℝ) = 100 := round_of_mem (by norm_num) (by norm_num)
  have hwest : ofAngles (100 : ℝ) 30 = west :=
    (hsector 100).2.1.2 (by rw [hround]; norm_num)
  refine ⟨?_, hwest, ?_⟩
  · rw [hfacing _ _ _ _ _ (find?_lookout 100)]
    have hdirection :
        ofAngles (onlooker 100).location.yaw (onlooker 100).location.pitch = west := by
      decide
    rw [hdirection]
    rfl
  · rw [(hturn 100).2 (by rw [hround]; norm_num), hwest]
    rfl

/-- **A quarter turn that stays in the east.**  At 230 degrees a level gaze is east, and after a
quarter turn, at 320 degrees, it is east still; the condition that a player faces south is false
there. -/
theorem quarter_turn_stays_east :
    ofAngles (230 : ℝ) 0 = east ∧ ofAngles (230 + 90 : ℝ) 0 ≠ (ofAngles (230 : ℝ) 0).turned ∧
    (Act.attempt ((Condition.facing east).check (nested 1) ⟨"ann"⟩)).run (lookout 320) =
      .ok (.ok true, lookout 320) ∧
    (Act.attempt ((Condition.facing south).check (nested 1) ⟨"ann"⟩)).run (lookout 320) =
      .ok (.ok false, lookout 320) := by
  have hlevel : ∀ yaw : ℝ, 0 ≤ yaw → yaw < 360 → ofAngles yaw 0 = sector yaw := fun yaw h h' => by
    rw [ofAngles_level (by norm_num) (by norm_num), round_of_mem h h']
  have hbefore : ofAngles (230 : ℝ) 0 = east := by
    rw [hlevel 230 (by norm_num) (by norm_num), sector_eq_east_iff]
    norm_num
  have hafter : ofAngles (230 + 90 : ℝ) 0 = east := by
    rw [hlevel (230 + 90) (by norm_num) (by norm_num), sector_eq_east_iff]
    norm_num
  have hlooks : ofAngles (onlooker 320).location.yaw (onlooker 320).location.pitch = east := by
    decide
  refine ⟨hbefore, ?_, ?_, ?_⟩
  · rw [hbefore, hafter]
    exact nofun
  · rw [Condition.facing_run (find?_lookout 320), hlooks]
    rfl
  · rw [Condition.facing_run (find?_lookout 320), hlooks]
    rfl

end Questbook
