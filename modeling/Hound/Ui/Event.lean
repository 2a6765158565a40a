import Hound.Core.Pet
import Hound.Ui.Display

/-!
# Events

What one detection does to the view: the Travel Watch entry, the scent book, the
recent list, the alert and the meal, in that order.
-/

namespace Hound

/-- `std::countr_zero` of the outfits that were unlocked. -/
def countrZero (x : UInt8) : Nat := ((List.range 8).find? x.toNat.testBit).getD 32

/-- Where a companion's book keeps the scents of a category. -/
def Category.scent (c : Category) : Fin 19 := ⟨c.code, c.code_lt⟩

namespace View

variable (hmac : Hmac)

/-- A full payload supersedes a service-only entry at this exact address. -/
def supersede (v : View) (d : Detection) : TagWatch :=
  if samsungIdentity d then
    match v.tagWatch.find (addressHash hmac v.identityKey.toList d) with
    | some legacy => v.tagWatch.drop legacy false
    | none => v.tagWatch
  else v.tagWatch

def watchTag (v : View) (d : Detection) : View :=
  if d.demo = v.demo ∧ TagWatch.tag d.category = true then
    let hash := v.identity hmac d
    let w := v.supersede hmac d
    { v with tagWatch :=
        if v.listening && hasCategory v.settings.enabledCategories d.category &&
            shouldAlert v.settings d && decide (50 ≤ d.score) && !v.isIgnored hmac d then
          w.observe hash d v.now
        else match w.find hash with
          | some i => w.drop i false
          | none => w }
  else v

def firstScent (v : View) (d : Detection) : Bool :=
  ((v.book d.demo).scents.get d.category.scent).observations == 0

def observeScent (v : View) (d : Detection) : View := v.setBook d.demo ((v.book d.demo).observe d)

def earnPreview (v : View) (d : Detection) : View :=
  if d.demo && d.meal then { v with previewXp := (min 0xffffffff (v.previewXp.toNat + 25)).toUInt32 } else v

def announceOutfit (v : View) (unlocked : UInt8) : View :=
  if unlocked != 0 then { v with unlockedOutfit := countrZero unlocked, unlockUntil := v.now + 12000 } else v

def saveScent (v : View) (d : Detection) (news : Bool) : View :=
  if !d.demo && news then v.request .Save else v

/-- The level and the recent list. -/
def remember (v : View) (d : Detection) : View :=
  { v with
    levelUntil := if !d.demo && decide (v.knownLevel < v.pet.level) then v.now + 11000 else v.levelUntil
    knownLevel := v.pet.level
    recent := (d :: v.recent).take 32 }

def learn (v : View) (d : Detection) : View :=
  let unlocked := ((v.observeScent d).earnPreview d).unlockOutfits d.demo
  ((unlocked.2.announceOutfit unlocked.1).saveScent d (v.firstScent d || unlocked.1 != 0)).remember d

/-- The event is about the device whose alert is pending. -/
def samePending (d pending : Detection) : Bool :=
  if samsungIdentity d && samsungIdentity pending then d.samsung.id == pending.samsung.id
  else d.category == pending.category && d.radio == pending.radio && d.address == pending.address &&
    d.addressType == pending.addressType

def alert (v : View) (d : Detection) : View :=
  if v.alertAllowed hmac d then
    { v.wakeForAlert with alertDetection := d, alertUntil := v.now + 5000 }
  else if v.alertUntil != 0 && d.demo == v.alertDetection.demo && samePending d v.alertDetection then
    { v with alertUntil := 0 }
  else v

def mealDuration : UInt64 := 7000

def serveMeal (v : View) (d : Detection) : View :=
  if d.meal then
    let v := { v with
      mealCategory := d.category
      mealUntil := v.now + mealDuration
      celebrationUntil := v.now + mealDuration + 2500 }
    if v.demo && d.demo then
      let (fullness, mood) := Pet.nourish d.score v.previewFullness v.previewMood
      { v with previewFullness := fullness, previewMood := mood, previewDecayMs := v.now }
    else v
  else v

/-- `event`; `category` is always an enumerator here, the source checks it. -/
def event (v : View) (d : Detection) : View :=
  if v.paused ∨ categoryCount ≤ d.category.code ∨ 100 < d.score then v
  else ((((v.updateTagWatch.watchTag hmac d).learn d).alert hmac d).serveMeal d)

end View

end Hound
