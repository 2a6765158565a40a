import Hound.Lib.Layout
import Hound.Storage.State

/-!
# How the saved records lie in flash

The layouts the compiler gives the records of `state_store.cpp`, padding
included. Sizes are part of the format: a reader tells record generations apart
by size before it looks at a version field.
-/

namespace Hound.Layouts

open Layout

def flag : Layout Flag := u8.record Flag.byte Flag.mk fun _ => rfl

def single : Layout Single := u32.record Single.bits Single.mk fun _ => rfl

def bytes (n : Nat) : Layout (Vector UInt8 n) := array n u8

/-- The first thirteen fields, which both settings records share. -/
def settingsV1 : Layout SettingsV1 :=
  (u32.seq <| u32.seq <| u8.seq <| u8.seq <| u8.seq <| u8.seq <| flag.seq <| flag.seq <|
    flag.seq <| flag.seq <| flag.seq <| flag.seq <| flag.seq <| bytes 13).record
    (fun s => (s.version, s.enabledCategories, s.threshold, s.region, s.brightness, s.character,
      s.sound, s.lowFeeding, s.reducedAnimation, s.research, s.rawSsid, s.onboarded,
      s.ibeaconAlerts, s.name))
    (fun (v, e, t, r, b, c, so, lo, re, rs, ra, on, ib, n) =>
      ⟨v, e, t, r, b, c, so, lo, re, rs, ra, on, ib, n⟩)
    fun _ => rfl

def settings : Layout Settings :=
  (settingsV1.seq <| flag.seq <| (flag.padded 2).seq u32).record
    (fun s => (s.checked, s.portrait, s.rotationLocked, s.alertCategories))
    (fun (v, p, r, a) =>
      { version := v.version, enabledCategories := v.enabledCategories, threshold := v.threshold,
        region := v.region, brightness := v.brightness, character := v.character,
        sound := v.sound, lowFeeding := v.lowFeeding, reducedAnimation := v.reducedAnimation,
        research := v.research, rawSsid := v.rawSsid, onboarded := v.onboarded,
        ibeaconAlerts := v.ibeaconAlerts, name := v.name, portrait := p, rotationLocked := r,
        alertCategories := a })
    fun _ => rfl

def pet : Layout Pet :=
  (u32.seq <| u32.seq <| u32.seq <| u32.seq <| (array 19 u32).seq <| u8.seq <|
    (u8.padded 2).seq u64).record
    (fun p => (p.xp, p.meals, p.unique, p.categoryMask, p.lifetimeMeals, p.fullness, p.mood,
      p.decayMs))
    (fun (x, m, u, c, l, f, o, d) => ⟨x, m, u, c, l, f, o, d⟩)
    fun _ => rfl

def calibration : Layout Calibration :=
  (single.seq <| single.seq <| single.seq <| single.seq <| single.seq <| single.seq <|
    flag.padded 3).record
    (fun c => (c.ax, c.bx, c.cx, c.ay, c.bY, c.cy, c.valid))
    (fun (ax, bx, cx, ay, bY, cy, v) => ⟨ax, bx, cx, ay, bY, cy, v⟩)
    fun _ => rfl

def battery : Layout BatteryCalibration :=
  ((array 3 u16).seq <| (array 3 u16).seq <| flag.padded 1).record
    (fun b => (b.adc, b.millivolts, b.enabled)) (fun (a, m, e) => ⟨a, m, e⟩) fun _ => rfl

def mealStamp : Layout MealStamp :=
  (u64.seq u64).record (fun s => (s.hash, s.remainingMs)) (fun (h, r) => ⟨h, r⟩) fun _ => rfl

def recent : Layout Recent := array 32 mealStamp

def scent : Layout ScentEntry :=
  (u64.seq <| u64.seq <| u32.seq <| u8.seq <| u8.seq <| i8.padded 1).record
    (fun s => (s.firstUtc, s.lastUtc, s.observations, s.bestScore, s.lastScore, s.strongest))
    (fun (f, l, o, b, s, t) => ⟨f, l, o, b, s, t⟩)
    fun _ => rfl

def ignored : Layout IgnoredScent :=
  ((bytes 8).seq u8).record (fun i => (i.digest, i.category)) (fun (d, c) => ⟨d, c⟩) fun _ => rfl

def ignoredV1 : Layout IgnoredV1 :=
  (u64.seq (u8.padded 7)).record (fun i => (i.hash, i.category)) (fun (h, c) => ⟨h, c⟩)
    fun _ => rfl

def companion : Layout Companion :=
  ((u32.padded 4).seq <| (array 19 scent).seq <| (array 64 ignored).seq <| u8.seq <|
    u8.padded 6).record
    (fun c => (c.version, c.scents, c.ignored, c.equipped, c.unlocked))
    (fun (v, s, i, e, u) => ⟨v, s, i, e, u⟩)
    fun _ => rfl

def companionV1 : Layout CompanionV1 :=
  ((u32.padded 4).seq <| (array 19 scent).seq <| (array 16 ignoredV1).seq <| u8.seq <|
    u8.padded 6).record
    (fun c => (c.version, c.scents, c.ignored, c.equipped, c.unlocked))
    (fun (v, s, i, e, u) => ⟨v, s, i, e, u⟩)
    fun _ => rfl

def appearance : Layout Appearance :=
  (u32.seq <| u8.seq <| u8.seq <| u8.seq <| u8.seq <| u8.seq <| u8.seq <| u8.seq u8).record
    (fun a => (a.version, a.theme, a.scene, a.speech, a.compact, a.inverted, a.dimMinutes,
      a.saverMinutes, a.offMinutes))
    (fun (v, t, s, p, c, i, d, e, o) => ⟨v, t, s, p, c, i, d, e, o⟩)
    fun _ => rfl

def appearanceV2 : Layout AppearanceV2 :=
  (u32.seq <| u8.seq <| u8.seq <| u8.seq <| u8.seq <| u8.padded 3).record
    (fun a => (a.version, a.theme, a.scene, a.speech, a.compact, a.inverted))
    (fun (v, t, s, p, c, i) => ⟨v, t, s, p, c, i⟩)
    fun _ => rfl

def appearanceV1 : Layout AppearanceV1 :=
  (u32.seq <| u8.seq <| u8.seq <| u8.seq u8).record
    (fun a => (a.version, a.theme, a.scene, a.speech, a.compact))
    (fun (v, t, s, p, c) => ⟨v, t, s, p, c⟩)
    fun _ => rfl

def stateV2 : Layout StateV2 :=
  (u32.seq <| (settings.padded 4).seq <| pet.seq <| (calibration.padded 4).seq <| recent.seq <|
    (bytes 32).seq <| u32.seq u32).record
    (fun s => (s.version, s.settings, s.pet, s.calibration, s.recent, s.mealKey, s.boots,
      s.resetReason))
    (fun (v, s, p, c, r, k, b, e) => ⟨v, s, p, c, r, k, b, e⟩)
    fun _ => rfl

def stateV1 : Layout StateV1 :=
  (u32.seq <| (settingsV1.padded 4).seq <| pet.seq <| (calibration.padded 4).seq <| recent.seq <|
    (bytes 32).seq <| u32.seq u32).record
    (fun s => (s.version, s.settings, s.pet, s.calibration, s.recent, s.mealKey, s.boots,
      s.resetReason))
    (fun (v, s, p, c, r, k, b, e) => ⟨v, s, p, c, r, k, b, e⟩)
    fun _ => rfl

/-! The sizes the source asserts. -/

example : companion.size = 1048 ∧ companionV1.size = 728 := by decide
example : appearance.size = 12 ∧ appearanceV2.size = 12 ∧ appearanceV1.size = 8 := by decide
example : ignored.size = 9 := by decide

end Hound.Layouts
