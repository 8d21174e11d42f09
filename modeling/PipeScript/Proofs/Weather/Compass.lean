import PipeScript.Proofs.Validation
import PipeScript.Weather
import Mathlib.Order.Bounds.Basic
import Mathlib.Data.List.Nodup

/-!
# The direction of the wind

A report names the direction of the wind by one of sixteen compass points. They are 22.5 degrees apart, but
directions are told apart in sectors of 22 degrees. So each sector begins half a degree too early, compared to
the one before it, and after a whole turn the names have moved on by eight degrees.

## The model

Directions are compared in half degrees, of which a turn has 720 and neighbouring points are 45 apart, so that
nothing is rounded. `angle` is how far a direction is from a point, the shorter way round, and `IsNearest` says
without any sectors which name a direction should have. A direction is given by its sector, counted from the
north over all turns, and by how deep it lies in it.

Main result: in every report there is one line that names the direction of the wind, and nothing else depends
on it; the name is the one of the nearest point exactly if the direction lies deep enough in its sector, and the
one that the direction has a turn later exactly if it lies in the first fourteen degrees of its sector
(`windLine_names_nearest_iff`).
-/

namespace PipeScript

/-- The forecast with another direction of the wind. -/
def Forecast.withWind (f : Forecast) (degrees : Int) : Forecast :=
  { f with current := { f.current with windDirection := degrees } }

namespace Weather

variable {degrees : Int} {j k : Nat}

/-! ### Nearest points -/

/-- The half degrees between a direction and a compass point, the shorter way round. -/
def angle (degrees : Int) (k : Nat) : Nat :=
  let turn := ((2 * degrees - 45 * k) % 720).toNat
  min turn (720 - turn)

/-- Is no compass point nearer to the direction than the one of this name? -/
def IsNearest (degrees : Int) (name : String) : Prop :=
  ∃ k < 16, compassPoints[k]? = some name ∧ ∀ j < 16, angle degrees k ≤ angle degrees j

instance (degrees : Int) (name : String) : Decidable (IsNearest degrees name) :=
  inferInstanceAs (Decidable (∃ k < 16, _))

/-- The angle is the least of all turns, either way round, that lead from the point to the direction. -/
theorem angle_isLeast (degrees : Int) (k : Nat) :
    IsLeast (Set.range fun turns : Int => (2 * degrees - 45 * k - 720 * turns).natAbs) (angle degrees k) := by
  simp only [angle]
  constructor
  · by_cases h : (2 * degrees - 45 * k) % 720 ≤ 360
    · refine ⟨(2 * degrees - 45 * k) / 720, ?_⟩
      simp only
      omega
    · refine ⟨(2 * degrees - 45 * k) / 720 + 1, ?_⟩
      simp only
      omega
  · rintro _ ⟨turns, rfl⟩
    simp only
    rcases Int.lt_or_le ((2 * degrees - 45 * k) / 720) turns with h | h <;> omega

/-- Some point is within a quarter of the way to the next but one. -/
theorem exists_angle_le (degrees : Int) : ∃ k < 16, angle degrees k ≤ 22 := by
  let q := (2 * degrees + 22) / 45
  refine ⟨(q % 16).toNat, by omega, ((angle_isLeast degrees _).2 ⟨q / 16, rfl⟩).trans ?_⟩
  simp only
  omega

/-- Two points are not both that near. -/
theorem eq_of_angle_le (hj : j < 16) (hk : k < 16) (hjle : angle degrees j ≤ 22)
    (hkle : angle degrees k ≤ 22) : j = k := by
  obtain ⟨turns, hturns⟩ := (angle_isLeast degrees j).1
  obtain ⟨turns', hturns'⟩ := (angle_isLeast degrees k).1
  have hdiff : (j : Int) - k + 16 * (turns - turns') = 0 := by
    simp only at hturns hturns'
    omega
  omega

/-- **The nearest points** are those at eleven degrees or less. -/
theorem forall_angle_le_iff (hk : k < 16) :
    (∀ j < 16, angle degrees k ≤ angle degrees j) ↔ angle degrees k ≤ 22 := by
  constructor
  · intro h
    obtain ⟨j, hj, hle⟩ := exists_angle_le degrees
    exact (h j hj).trans hle
  · intro hle j hj
    by_contra hlt
    have heq : j = k := eq_of_angle_le hj hk (by omega) hle
    exact hlt (heq ▸ le_rfl)

/-! ### Sectors -/

/-- The sector of a direction, counted from the one around the north. -/
def sector (degrees : Int) : Int := (degrees + 11) / 22

/-- How many degrees of its sector lie before a direction. -/
def depth (degrees : Int) : Int := (degrees + 11) % 22

/-- The place of the point that a direction is reported as. -/
def pointIndex (degrees : Int) : Nat := (sector degrees % 16).toNat

theorem pointIndex_lt (degrees : Int) : pointIndex degrees < 16 := by
  unfold pointIndex
  omega

theorem compassPoints_pointIndex (degrees : Int) :
    compassPoints[pointIndex degrees]? = some (compassPoint degrees) := by
  have hlength : pointIndex degrees < compassPoints.length := pointIndex_lt degrees
  have hindex : ((degrees + 11).fdiv 22).fmod 16 = sector degrees % 16 := by
    rw [Int.fdiv_eq_ediv_of_nonneg _ (by decide), Int.fmod_eq_emod_of_nonneg _ (by decide), sector]
  rw [compassPoint, hindex, List.getD_eq_getElem?_getD, ← pointIndex, List.getElem?_eq_getElem hlength]
  rfl

/-- The points have different names. -/
theorem pointIndex_eq_iff {degrees' : Int} :
    compassPoint degrees = compassPoint degrees' ↔ pointIndex degrees = pointIndex degrees' := by
  have hnodup : compassPoints.Nodup := by decide
  rw [← List.getElem?_inj (pointIndex_lt degrees) hnodup, compassPoints_pointIndex,
    compassPoints_pointIndex, Option.some_inj]

/-- **The reported name** is the one of the nearest point exactly if the direction lies half a degree deep in
its sector for each sector that is before it, whole turns of points left out. -/
theorem isNearest_compassPoint_iff (degrees : Int) :
    IsNearest degrees (compassPoint degrees) ↔ (2 * depth degrees - sector degrees) % 720 ≤ 44 := by
  have hnodup : compassPoints.Nodup := by decide
  have hnearest : IsNearest degrees (compassPoint degrees) ↔ angle degrees (pointIndex degrees) ≤ 22 := by
    rw [← forall_angle_le_iff (pointIndex_lt degrees)]
    constructor
    · rintro ⟨k, hk, hname, hle⟩
      rw [← compassPoints_pointIndex, List.getElem?_inj hk hnodup] at hname
      rwa [← hname]
    · exact fun hle => ⟨_, pointIndex_lt degrees, compassPoints_pointIndex degrees, hle⟩
  have hturn : (2 * degrees - 45 * pointIndex degrees) % 720 =
      (2 * depth degrees - sector degrees - 22) % 720 := by
    have hturns : 2 * degrees - 45 * pointIndex degrees =
        2 * depth degrees - sector degrees - 22 + 720 * (sector degrees / 16) := by
      simp only [pointIndex, depth, sector]
      omega
    rw [hturns, Int.add_mul_emod_self_left]
  simp only [hnearest, angle, hturn]
  clear hturn hnearest
  generalize 2 * depth degrees - sector degrees = turn
  omega

/-- **A turn later** the name is the same in the first fourteen degrees of a sector, and the next one in the
other eight. -/
theorem compassPoint_add_turn (degrees : Int) :
    compassPoint (degrees + 360) = compassPoint degrees ↔ depth degrees < 14 := by
  rw [pointIndex_eq_iff]
  simp only [pointIndex, sector, depth]
  omega

/-! ### The line about the wind -/

/-- The line that names the direction of the wind. -/
def windLine (f : Forecast) (degrees : Int) : String :=
  "- **Wind:** " ++ Binary64.toFixed 0 f.current.windSpeed ++ " mph " ++ compassPoint degrees

/-- The lines before it. -/
def linesBeforeWind (location : String) (f : Forecast) : List String := [
  "# Weather for " ++ location,
  "",
  "## Current Conditions",
  s!"- **Temperature:** {temperature f.current.temperature} (feels like {temperature f.current.feelsLike})",
  s!"- **Rain%:** {nextRain f}% (next hours)",
  s!"- **Condition:** {condition (some f.current.code)}",
  s!"- **Humidity:** {f.current.humidity}%"]

theorem report_withWind (location : String) (f : Forecast) (degrees : Int) :
    report location (f.withWind degrees) =
      "\n".intercalate (linesBeforeWind location f ++ windLine f degrees :: dayLines f.daily) ++ "\n" := rfl

/-- **One line of a report** names the direction of the wind, and what stands before and after it does not
depend on the direction. -/
theorem exists_report_eq (location : String) (f : Forecast) : ∃ before after, ∀ degrees,
    report location (f.withWind degrees) = before ++ "\n" ++ windLine f degrees ++ "\n" ++ after := by
  have hsplit (degrees : Int) (after : List String) :
      "\n".intercalate (linesBeforeWind location f ++ windLine f degrees :: after) =
        "\n".intercalate (linesBeforeWind location f) ++ "\n" ++
          "\n".intercalate (windLine f degrees :: after) :=
    String.intercalate_append_of_ne_nil (List.cons_ne_nil _ _) (List.cons_ne_nil _ _)
  cases hdays : dayLines f.daily with
  | nil =>
    refine ⟨"\n".intercalate (linesBeforeWind location f), "", fun degrees => ?_⟩
    rw [report_withWind, hdays, hsplit, String.intercalate_singleton, String.append_empty]
  | cons day days =>
    refine ⟨"\n".intercalate (linesBeforeWind location f), "\n".intercalate (day :: days) ++ "\n",
      fun degrees => ?_⟩
    rw [report_withWind, hdays, hsplit, String.intercalate_cons_cons]
    simp only [String.append_assoc]

/-- **The wind in a report.** Whatever else the forecast says, one line names the direction of the wind. The
name is the one of the nearest compass point exactly if the direction lies half a degree deep in its sector for
each sector before it, and it is the name for the same direction a turn later exactly if the direction lies in
the first fourteen of the 22 degrees of its sector. -/
theorem windLine_names_nearest_iff (location : String) (f : Forecast) :
    (∃ before after, ∀ degrees, report location (f.withWind degrees) =
      before ++ "\n" ++ ("- **Wind:** " ++ Binary64.toFixed 0 f.current.windSpeed ++ " mph " ++
        compassPoint degrees) ++ "\n" ++ after) ∧
    ∀ degrees,
      (IsNearest degrees (compassPoint degrees) ↔ (2 * depth degrees - sector degrees) % 720 ≤ 44) ∧
      (compassPoint (degrees + 360) = compassPoint degrees ↔ depth degrees < 14) :=
  ⟨exists_report_eq location f, fun degrees =>
    ⟨isNearest_compassPoint_iff degrees, compassPoint_add_turn degrees⟩⟩

/-- An answer of the forecast service with a wind from the north-northwest. -/
def northNorthwest : Json := .object [("current", .object [("temperature_2m", .int 72),
  ("apparent_temperature", .int 70), ("wind_speed_10m", .int 5), ("wind_direction_10m", .int 341)])]

/-- The wind is reported to come from the north, which is 19 degrees off, though the north-northwest is only
3.5 degrees off; and half a turn is the south, but a turn and a half is not. -/
theorem north_for_northNorthwest :
    (∃ f, Forecast.ofJson northNorthwest = .ok f ∧ f.current.windDirection = 341 ∧
      report "Leeds" f = "\n".intercalate ["# Weather for Leeds", "", "## Current Conditions",
        "- **Temperature:** 72°F (feels like 70°F)", "- **Rain%:** 0% (next hours)",
        "- **Condition:** Clear sky", "- **Humidity:** 0%", "- **Wind:** 5 mph N\n"]) ∧
    IsNearest 341 "NNW" ∧ ¬ IsNearest 341 "N" ∧
    compassPoint 180 = "S" ∧ compassPoint (180 + 360) = "SSW" := by
  have hforecast : Forecast.ofJson northNorthwest = .ok ⟨⟨72, 70, 0, 0, 5, 341⟩, {}, {}⟩ :=
    eq_ok_of_toOption (by decide +kernel)
  refine ⟨⟨_, hforecast, rfl, ?_⟩, by decide, by decide, by decide, by decide⟩
  decide +kernel

end Weather

end PipeScript
