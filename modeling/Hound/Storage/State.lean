import Hound.Core.Appearance
import Hound.Core.Companion
import Hound.Core.Pet

/-!
# The saved state and its validators

`State` is what the store keeps, `StateV2` and `StateV1` the two frozen records
it can still read. Every check runs on values as flash can hold them: a boolean
is a byte, a float its bit pattern, a category a number.
-/

namespace Hound

/-- A C++ `float` as its IEEE 754 single-precision bits. -/
structure Single where
  bits : UInt32 := 0
  deriving DecidableEq, Repr

namespace Single

def isFinite (f : Single) : Bool := (f.bits >>> 23) &&& 0xff != 0xff

/-- `std::abs(f) > 100000`: magnitudes of numbers compare as their bits do, and
`47c35000` is 100000. -/
def exceeds (f : Single) : Bool := decide (0x47c35000 < f.bits &&& 0x7fffffff)

end Single

/-- `board::Calibration`. -/
structure Calibration where
  ax : Single := {}
  bx : Single := {}
  cx : Single := {}
  ay : Single := {}
  bY : Single := {}
  cy : Single := {}
  valid : Flag := .ofBool false
  deriving DecidableEq, Repr

def Calibration.coefficients (c : Calibration) : List Single := [c.ax, c.bx, c.cx, c.ay, c.bY, c.cy]

def defaultMillivolts : Vector UInt16 3 := #v[3300, 3700, 4200]

structure BatteryCalibration where
  adc : Vector UInt16 3 := Vector.replicate 3 0
  millivolts : Vector UInt16 3 := defaultMillivolts
  enabled : Flag := .ofBool false
  deriving DecidableEq, Repr

/-- `valid_battery`; the sums are those of `int`. -/
def validBattery (c : BatteryCalibration) : Bool :=
  let adc (i : Fin 3) := (c.adc.get i).toNat
  let mv (i : Fin 3) := (c.millivolts.get i).toNat
  decide (50 ≤ adc 0) && decide (adc 2 ≤ 4095) && decide (adc 0 + 20 < adc 1) &&
    decide (adc 1 + 20 < adc 2) && decide (2500 ≤ mv 0) && decide (mv 2 ≤ 4500) &&
    decide (mv 0 + 100 < mv 1) && decide (mv 1 + 100 < mv 2)

abbrev Recent := Vector MealStamp 32
abbrev MealKey := Vector UInt8 32

structure State where
  version : UInt32 := 5
  settings : Settings := {}
  pet : Pet := {}
  calibration : Calibration := {}
  recent : Recent := Vector.replicate 32 {}
  mealKey : MealKey := Vector.replicate 32 0
  boots : UInt32 := 0
  resetReason : UInt32 := 0
  battery : BatteryCalibration := {}
  companion : Companion := {}
  appearance : Appearance := {}
  deriving DecidableEq

structure StateV2 where
  version : UInt32 := 2
  settings : Settings := {}
  pet : Pet := {}
  calibration : Calibration := {}
  recent : Recent := Vector.replicate 32 {}
  mealKey : MealKey := Vector.replicate 32 0
  boots : UInt32 := 0
  resetReason : UInt32 := 0

structure SettingsV1 where
  version : UInt32 := 1
  enabledCategories : UInt32 := allCategories
  threshold : UInt8 := 50
  region : UInt8 := 0
  brightness : UInt8 := 70
  character : UInt8 := 0
  sound : Flag := .ofBool false
  lowFeeding : Flag := .ofBool false
  reducedAnimation : Flag := .ofBool false
  research : Flag := .ofBool false
  rawSsid : Flag := .ofBool false
  onboarded : Flag := .ofBool false
  ibeaconAlerts : Flag := .ofBool false
  name : Vector UInt8 13 := scout

structure StateV1 where
  version : UInt32 := 1
  settings : SettingsV1 := {}
  pet : Pet := {}
  calibration : Calibration := {}
  recent : Recent := Vector.replicate 32 {}
  mealKey : MealKey := Vector.replicate 32 0
  boots : UInt32 := 0
  resetReason : UInt32 := 0

/-- The fields `valid_state` reads; both settings records have them. -/
def Settings.checked (s : Settings) : SettingsV1 :=
  { version := s.version, enabledCategories := s.enabledCategories, threshold := s.threshold,
    region := s.region, brightness := s.brightness, character := s.character, sound := s.sound,
    lowFeeding := s.lowFeeding, reducedAnimation := s.reducedAnimation, research := s.research,
    rawSsid := s.rawSsid, onboarded := s.onboarded, ibeaconAlerts := s.ibeaconAlerts,
    name := s.name }

/-! ## Validators -/

def validName (name : Vector UInt8 13) : Bool :=
  (name.get 12) == 0 && name.toList.all fun c => c == 0 || !(decide (c < 32) || decide (126 < c))

def validCalibration (c : Calibration) : Bool :=
  c.valid.valid && (!c.valid.isSet || c.coefficients.all fun f => f.isFinite && !f.exceeds)

def validThreshold (threshold : UInt8) : Bool :=
  threshold == 20 || threshold == 50 || threshold == 80

/-- `mask >> category_count` is zero. -/
def validMask (mask : UInt32) : Bool := mask >>> 19 == 0

/-- The checks of `valid_state` on the settings alone. -/
def validSettings (v : SettingsV1) (version : UInt32) : Bool :=
  [v.sound, v.lowFeeding, v.reducedAnimation, v.research, v.rawSsid, v.onboarded,
    v.ibeaconAlerts].all Flag.valid &&
  v.version == (if version == 1 then 1 else 2) && decide (v.character < 6) &&
  decide (v.region < 2) && decide (v.brightness ≤ 100) && decide (1 ≤ v.brightness) &&
  validName v.name && validThreshold v.threshold && validMask v.enabledCategories

def validPet (p : Pet) : Bool := decide (p.fullness ≤ 100) && decide (p.mood ≤ 100)

/-- `valid_state(s, version)`. -/
def validState (stored : UInt32) (settings : SettingsV1) (calibration : Calibration) (pet : Pet)
    (version : UInt32) : Bool :=
  validSettings settings version && validCalibration calibration && stored == version &&
    validPet pet

def validCurrent (s : State) : Bool :=
  validState s.version s.settings.checked s.calibration s.pet 5 && validCompanion s.companion &&
    validAppearance s.appearance &&
    [s.settings.portrait, s.settings.rotationLocked, s.battery.enabled].all Flag.valid &&
    validMask s.settings.alertCategories && (!s.battery.enabled.isSet || validBattery s.battery) &&
    (s.recent.toList.all fun stamp => decide (stamp.remainingMs ≤ 1800000)) &&
    s.mealKey.toList.any fun b => b != 0

/-! ## Migration -/

def migrateV2 (old : StateV2) : Option State :=
  if !validState old.version old.settings.checked old.calibration old.pet 2 then none
  else if !(old.settings.portrait.valid && old.settings.rotationLocked.valid &&
      validMask old.settings.alertCategories) then none
  else some
    { settings := old.settings, pet := old.pet, calibration := old.calibration,
      recent := old.recent, mealKey := old.mealKey, boots := old.boots,
      resetReason := old.resetReason }

def migrateV1 (old : StateV1) : Option State :=
  if !validState old.version old.settings old.calibration old.pet 1 then none
  else
    let fresh : Settings := {}
    let v := old.settings
    some
      { settings :=
          { enabledCategories := v.enabledCategories, threshold := v.threshold,
            region := v.region, brightness := v.brightness, character := v.character,
            sound := v.sound, lowFeeding := v.lowFeeding, reducedAnimation := v.reducedAnimation,
            research := v.research, rawSsid := v.rawSsid, onboarded := v.onboarded,
            ibeaconAlerts := v.ibeaconAlerts, name := v.name,
            alertCategories := if v.ibeaconAlerts.isSet then
                fresh.alertCategories ||| Category.IBEACON.bit else fresh.alertCategories }
        pet := old.pet, calibration := old.calibration, recent := old.recent,
        mealKey := old.mealKey, boots := old.boots, resetReason := old.resetReason }

end Hound
