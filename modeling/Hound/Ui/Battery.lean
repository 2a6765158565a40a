import Hound.Lib.Segments
import Hound.Lib.Slots
import Hound.Storage.State

/-!
# The battery level

`battery_mv` and `battery_percent` of `utilities.cpp`, and the level `app_task`
shows. Divisions of `int` truncate towards zero.
-/

namespace Hound

open Segments

/-! ## Conversion -/

def BatteryCalibration.adcAt (c : BatteryCalibration) (i : Fin 3) : Int := (c.adc.get i).toNat

def BatteryCalibration.millivoltsAt (c : BatteryCalibration) (i : Fin 3) : Int := (c.millivolts.get i).toNat

/-- The point before the segment of a reading. -/
def BatteryCalibration.segmentAt (c : BatteryCalibration) (adc : Int) : Fin 2 := if adc < c.adcAt 1 then 0 else 1

def batteryMv (c : BatteryCalibration) (adc : Int) : Int :=
  if !validBattery c || decide (adc < 0) || decide (4095 < adc) then -1
  else
    let i := c.segmentAt adc
    max 0 (min 5000 (c.millivoltsAt i.castSucc +
      ((adc - c.adcAt i.castSucc) * (c.millivoltsAt i.succ - c.millivoltsAt i.castSucc)).tdiv
        (c.adcAt i.succ - c.adcAt i.castSucc)))

/-- The rest of `voltage` with `percent`, after the point before it. -/
def percentLoop (mv : Int) : Int × Int → List (Int × Int) → Int
  | _, [] => 100
  | p, q :: qs =>
      if mv < q.1 then max 0 (p.2 + ((mv - p.1) * (q.2 - p.2)).tdiv (q.1 - p.1)) else percentLoop mv q qs

/-- `voltage` and `percent` after their first entries. -/
def dischargeCurve : List (Int × Int) :=
  [(3500, 5), (3650, 15), (3700, 25), (3750, 40), (3800, 55), (3900, 70), (4000, 80), (4100, 90), (4200, 100)]

def batteryPercent (mv : Int) : Int := if mv < 0 then -1 else percentLoop mv (3300, 0) dischargeCurve

/-- `battery_level` for a raw reading. -/
def batteryLevel (c : BatteryCalibration) (adc : Int) : Int :=
  batteryPercent (if c.enabled.isSet then batteryMv c adc else -1)

/-! ## Calibrations -/

/-- What `valid_battery` asks for. -/
structure Calibrated (c : BatteryCalibration) : Prop where
  low : 50 ≤ c.adcAt 0
  high : c.adcAt 2 ≤ 4095
  first : c.adcAt 0 + 20 < c.adcAt 1
  second : c.adcAt 1 + 20 < c.adcAt 2
  empty : 2500 ≤ c.millivoltsAt 0
  full : c.millivoltsAt 2 ≤ 4500
  lower : c.millivoltsAt 0 + 100 < c.millivoltsAt 1
  upper : c.millivoltsAt 1 + 100 < c.millivoltsAt 2

theorem calibrated {c : BatteryCalibration} (h : validBattery c = true) : Calibrated c := by
  simp only [validBattery, Bool.and_eq_true, decide_eq_true_eq] at h
  obtain ⟨⟨⟨⟨⟨⟨⟨hlow, hhigh⟩, hfirst⟩, hsecond⟩, hempty⟩, hfull⟩, hlower⟩, hupper⟩ := h
  constructor
  all_goals
    simp only [BatteryCalibration.adcAt, BatteryCalibration.millivoltsAt]
    omega

/-- A point of the calibration. -/
def BatteryCalibration.point (c : BatteryCalibration) (i : Fin 3) : Int × Int := (c.adcAt i, c.millivoltsAt i)

theorem Calibrated.rises {c : BatteryCalibration} (h : Calibrated c) (i : Fin 2) :
    Rises (c.point i.castSucc) (c.point i.succ) := by
  obtain ⟨-, -, hfirst, hsecond, -, -, hlower, hupper⟩ := h
  match i with
  | 0 => exact ⟨show c.adcAt 0 < c.adcAt 1 by omega, show c.millivoltsAt 0 ≤ c.millivoltsAt 1 by omega⟩
  | 1 => exact ⟨show c.adcAt 1 < c.adcAt 2 by omega, show c.millivoltsAt 1 ≤ c.millivoltsAt 2 by omega⟩

/-- The value before it is clamped. -/
def BatteryCalibration.line (c : BatteryCalibration) (adc : Int) : Int :=
  segment (c.point (c.segmentAt adc).castSucc) (c.point (c.segmentAt adc).succ) adc

theorem batteryMv_eq {c : BatteryCalibration} (h : validBattery c = true) {adc : Int} (hlow : 0 ≤ adc)
    (hhigh : adc ≤ 4095) : batteryMv c adc = max 0 (min 5000 (c.line adc)) := by
  have hrange : (!validBattery c || decide (adc < 0) || decide (4095 < adc)) = false := by
    simp only [h, Bool.not_true, Bool.false_or, Bool.or_eq_false_iff, decide_eq_false_iff_not]
    omega
  unfold batteryMv
  rw [hrange]
  rfl

/-- The middle point joins the two segments. -/
theorem Calibrated.line_mono {c : BatteryCalibration} (h : Calibrated c) {x y : Int} (hxy : x ≤ y) :
    c.line x ≤ c.line y := by
  unfold BatteryCalibration.line BatteryCalibration.segmentAt
  by_cases hy : y < c.adcAt 1
  · rw [if_pos (Int.lt_of_le_of_lt hxy hy), if_pos hy]
    exact (h.rises 0).mono hxy
  · rw [if_neg hy]
    split
    · rename_i hx
      exact ((h.rises 0).le_right (Int.le_of_lt hx)).trans ((h.rises 1).left_le (Int.not_lt.mp hy))
    · exact (h.rises 1).mono hxy

theorem Calibrated.line_adcAt {c : BatteryCalibration} (h : Calibrated c) (i : Fin 3) :
    c.line (c.adcAt i) = c.millivoltsAt i := by
  have hfirst := h.first
  have hsecond := h.second
  unfold BatteryCalibration.line BatteryCalibration.segmentAt
  match i with
  | 0 =>
    rw [if_pos (by omega)]
    exact segment_left (c.point 0) (c.point 1)
  | 1 =>
    rw [if_neg (Int.lt_irrefl _)]
    exact segment_left (c.point 1) (c.point 2)
  | 2 =>
    rw [if_neg (by omega)]
    exact segment_right (h.rises 1).1

/-! ## The width of `int` -/

def FitsInt (x : Int) : Prop := -2147483648 ≤ x ∧ x ≤ 2147483647

/-- Every operation of `battery_mv` on a segment is defined. -/
structure MvDefined (c : BatteryCalibration) (adc : Int) (i : Fin 2) : Prop where
  divisor : c.adcAt i.succ - c.adcAt i.castSucc ≠ 0
  offset : FitsInt (adc - c.adcAt i.castSucc)
  rise : FitsInt (c.millivoltsAt i.succ - c.millivoltsAt i.castSucc)
  run : FitsInt (c.adcAt i.succ - c.adcAt i.castSucc)
  product : FitsInt ((adc - c.adcAt i.castSucc) * (c.millivoltsAt i.succ - c.millivoltsAt i.castSucc))
  quotient : FitsInt (((adc - c.adcAt i.castSucc) *
    (c.millivoltsAt i.succ - c.millivoltsAt i.castSucc)).tdiv (c.adcAt i.succ - c.adcAt i.castSucc))
  sum : FitsInt (segment (c.point i.castSucc) (c.point i.succ) adc)

theorem Calibrated.inside {c : BatteryCalibration} (h : Calibrated c) (i : Fin 3) :
    50 ≤ c.adcAt i ∧ c.adcAt i ≤ 4095 ∧ 2500 ≤ c.millivoltsAt i ∧ c.millivoltsAt i ≤ 4500 := by
  obtain ⟨hlow, hhigh, hfirst, hsecond, hempty, hfull, hlower, hupper⟩ := h
  match i with
  | 0 => omega
  | 1 => omega
  | 2 => omega

theorem Calibrated.mvDefined {c : BatteryCalibration} (h : Calibrated c) {adc : Int} (hlow : 0 ≤ adc)
    (hhigh : adc ≤ 4095) (i : Fin 2) : MvDefined c adc i := by
  have hrises := h.rises i
  have hrun : c.adcAt i.castSucc < c.adcAt i.succ := hrises.1
  have hrise : c.millivoltsAt i.castSucc ≤ c.millivoltsAt i.succ := hrises.2
  have hp := h.inside i.castSucc
  have hq := h.inside i.succ
  -- the product is at most 4095 by 2000, and no quotient is larger
  have hproduct : ((adc - c.adcAt i.castSucc) *
      (c.millivoltsAt i.succ - c.millivoltsAt i.castSucc)).natAbs ≤ 4095 * 2000 := by
    rw [Int.natAbs_mul]
    exact Nat.mul_le_mul (by omega) (by omega)
  have hquotient := Int.natAbs_tdiv_le_natAbs
    ((adc - c.adcAt i.castSucc) * (c.millivoltsAt i.succ - c.millivoltsAt i.castSucc))
    (c.adcAt i.succ - c.adcAt i.castSucc)
  have hsum : segment (c.point i.castSucc) (c.point i.succ) adc = c.millivoltsAt i.castSucc +
      ((adc - c.adcAt i.castSucc) * (c.millivoltsAt i.succ - c.millivoltsAt i.castSucc)).tdiv
        (c.adcAt i.succ - c.adcAt i.castSucc) := rfl
  constructor
  case divisor => omega
  case offset => unfold FitsInt; omega
  case rise => unfold FitsInt; omega
  case run => unfold FitsInt; omega
  case product => unfold FitsInt; omega
  case quotient => unfold FitsInt; omega
  case sum => rw [hsum]; unfold FitsInt; omega

/-! ## Percent -/

/-- The loop is a table that is cut off below zero. -/
theorem percentLoop_eq (mv : Int) (p : Int × Int) (qs : List (Int × Int))
    (hlast : ((p :: qs).getLast (List.cons_ne_nil p qs)).2 = 100) :
    percentLoop mv p qs = max 0 (table p qs mv) := by
  induction qs generalizing p with
  | nil =>
    have hp : p.2 = 100 := hlast
    unfold percentLoop table
    rw [hp]
    rfl
  | cons q qs ih =>
    rw [List.getLast_cons_cons] at hlast
    unfold percentLoop table
    split
    · rfl
    · exact ih q hlast

theorem dischargeCurve_rises : List.IsChain Rises ((3300, 0) :: dischargeCurve) := by
  unfold dischargeCurve Rises
  decide

theorem batteryPercent_eq {mv : Int} (h : 0 ≤ mv) :
    batteryPercent mv = max 0 (table (3300, 0) dischargeCurve mv) := by
  unfold batteryPercent
  rw [if_neg (Int.not_lt.mpr h), percentLoop_eq mv (3300, 0) dischargeCurve (by decide)]

theorem batteryPercent_mono {m n : Int} (hm : 0 ≤ m) (hmn : m ≤ n) : batteryPercent m ≤ batteryPercent n := by
  rw [batteryPercent_eq hm, batteryPercent_eq (hm.trans hmn)]
  exact max_le_max_left 0 (table_mono dischargeCurve_rises hmn)

theorem batteryPercent_range {mv : Int} (h : 0 ≤ mv) : 0 ≤ batteryPercent mv ∧ batteryPercent mv ≤ 100 := by
  rw [batteryPercent_eq h]
  have hbound : ∀ q ∈ dischargeCurve, q.2 ≤ 100 := by decide
  exact ⟨le_max_left _ _, max_le (by decide) (table_le dischargeCurve_rises (by decide) hbound mv)⟩

/-- With an accepted calibration the level never falls while the reading rises. -/
theorem battery_monotone (c : BatteryCalibration) (hvalid : validBattery c = true) :
    (∀ adc, 0 ≤ adc → adc ≤ 4095 →
      MvDefined c adc (c.segmentAt adc) ∧ 0 ≤ batteryMv c adc ∧ batteryMv c adc ≤ 5000) ∧
    (∀ x y, 0 ≤ x → x ≤ y → y ≤ 4095 → batteryMv c x ≤ batteryMv c y ∧ batteryLevel c x ≤ batteryLevel c y) ∧
    (∀ i, batteryMv c (c.adcAt i) = c.millivoltsAt i) ∧
    (∀ m n, 0 ≤ m → m ≤ n → batteryPercent m ≤ batteryPercent n) ∧
    ∀ mv, 0 ≤ mv → 0 ≤ batteryPercent mv ∧ batteryPercent mv ≤ 100 := by
  have hcal := calibrated hvalid
  have hrange : ∀ adc, 0 ≤ adc → adc ≤ 4095 → 0 ≤ batteryMv c adc ∧ batteryMv c adc ≤ 5000 := by
    intro adc hlow hhigh
    rw [batteryMv_eq hvalid hlow hhigh]
    omega
  have hmono : ∀ x y, 0 ≤ x → x ≤ y → y ≤ 4095 → batteryMv c x ≤ batteryMv c y := by
    intro x y hlow hxy hhigh
    rw [batteryMv_eq hvalid hlow (hxy.trans hhigh), batteryMv_eq hvalid (hlow.trans hxy) hhigh]
    have hline := hcal.line_mono hxy
    omega
  refine ⟨fun adc hlow hhigh => ⟨hcal.mvDefined hlow hhigh _, hrange adc hlow hhigh⟩, fun x y hlow hxy hhigh => ?_,
    fun i => ?_, fun m n => batteryPercent_mono, fun mv => batteryPercent_range⟩
  · refine ⟨hmono x y hlow hxy hhigh, ?_⟩
    unfold batteryLevel
    split
    · exact batteryPercent_mono (hrange x hlow (hxy.trans hhigh)).1 (hmono x y hlow hxy hhigh)
    · exact Int.le_refl _
  · have hinside := hcal.inside i
    rw [batteryMv_eq hvalid (by omega) hinside.2.1, hcal.line_adcAt]
    omega

/-- Three points of a divider that halves the voltage. -/
theorem battery_monotone_half :
    batteryMv ⟨#v[2048, 2296, 2606], #v[3300, 3700, 4200], .ofBool true⟩ 2100 ≤
      batteryMv ⟨#v[2048, 2296, 2606], #v[3300, 3700, 4200], .ofBool true⟩ 2500 :=
  ((battery_monotone ⟨#v[2048, 2296, 2606], #v[3300, 3700, 4200], .ofBool true⟩ (by decide)).2.1
    2100 2500 (by decide) (by decide) (by decide)).1

end Hound
