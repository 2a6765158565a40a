import Hound.Core.Appearance
import Hound.Core.Companion
import Hound.Core.Pet
import Hound.Core.Privacy
import Hound.Storage.State
import Hound.Watch.DroneCache
import Hound.Watch.FollowScent
import Hound.Watch.TagWatch

/-!
# The view

The state behind the panel, with what its queries and its small updates compute.
Whatever the demo shows has a preview copy of its own: the fields of `View` that
come in pairs are read and written through one function that picks the copy.
-/

namespace Hound

inductive Screen where
  | Welcome | Calibration | Choose | Name | Privacy | Home | Log | Detectors | Settings | Diagnostics
  | Details | ResearchWarning | ResetWarning | Alerts | Clock | Battery | ClearWarning | SelfTest
  | ScentBook | ScentCard | Wardrobe | AlertActions | Ignored | Follow | Appearance | Display
  | TagWatch | WatchProgress | IdleDisplay | IgnoreBackup | Coverage
  deriving DecidableEq

/-- The bits of `requests`. -/
inductive UiRequest where
  | Save | Start | Export | Eject | Demo | Calibrate | DiagnosticCopy | Reset | Rotate | Pause
  | ClearLogs | Sleep | Invert | BackupIgnores
  deriving DecidableEq

inductive DisplayMode where
  | Active | Dim | Saver | Off
  deriving DecidableEq

inductive ExportStatus where
  | Idle | Checking | Exporting | Complete | NoCard | ReadOnly | Failed | QueueFull | Demo
  deriving DecidableEq

inductive EjectStatus where
  | Idle | Ejecting | Safe | Failed | QueueFull | NoCard | Demo
  deriving DecidableEq

/-- `View`: the fields that its updates, its taps and the choice of a frame's target
use. `settings` and `pet` are the application's, which the view holds by reference.
`recent` is the used front of the array, `watchFlash` is `tag_watch.flash`. -/
structure View where
  settings : Settings := {}
  pet : Pet := {}
  screen : Screen := .Welcome
  companion : Companion := {}
  previewCompanion : Companion := {}
  identityKey : MealKey := Vector.replicate 32 0
  snoozeUntil : UInt64 := 0
  previewSnoozeUntil : UInt64 := 0
  unlockUntil : UInt64 := 0
  previewXp : UInt32 := 0
  unlockedOutfit : Nat := 0
  bookPage : Nat := 0
  scentIndex : Nat := 0
  scentPage : Nat := 0
  wardrobeIndex : Nat := 0
  ignoredPage : Nat := 0
  coveragePage : Nat := 0
  backupPending : Bool := false
  sdChecking : Bool := false
  actionDetection : Detection := {}
  displayedIdentity : UInt64 := 0
  framePresented : Bool := false
  homeAlertShown : Bool := false
  displayedIgnored : Bool := false
  appearance : Appearance := {}
  previewAppearance : Appearance := {}
  displayMode : DisplayMode := .Active
  lastActivity : UInt64 := 0
  saverSince : UInt64 := 0
  alertWakeUntil : UInt64 := 0
  saverPreview : Bool := false
  pets : UInt32 := 0
  previewFullness : UInt8 := 70
  previewMood : UInt8 := 70
  previewDecayMs : UInt64 := 0
  celebrationUntil : UInt64 := 0
  follow : FollowScent := {}
  tagWatch : TagWatch := {}
  watchFlash : Bool := true
  watchReview : UInt64 := 0
  watchPage : Nat := 0
  requests : List UiRequest := []
  now : UInt64 := 0
  alertUntil : UInt64 := 0
  mealUntil : UInt64 := 0
  happyUntil : UInt64 := 0
  mealCategory : Category := .FLIPPER
  alertDetection : Detection := {}
  detailDetection : Detection := {}
  detailDrone : DroneTrack := {}
  detailValid : Bool := false
  detailPage : Nat := 0
  demo : Bool := false
  sd : Bool := false
  sdError : Bool := false
  sdReadOnly : Bool := false
  scanning : Bool := false
  paused : Bool := false
  clockSeconds : UInt64 := 0
  clockSetMs : UInt64 := 0
  levelUntil : UInt64 := 0
  batteryCal : BatteryCalibration := {}
  batteryPoint : Fin 3 := 0
  batteryAdc : Int := -1
  diagnosticPage : Nat := 0
  logPage : Nat := 0
  clockInput : Vector UInt8 13 := Vector.replicate 13 0
  knownLevel : UInt32 := 1
  selfTestTaps : UInt32 := 0
  drones : DroneCache := fun _ => {}
  touchX : Int := 0
  touchY : Int := 0
  detectorPage : Nat := 0
  settingsPage : Nat := 0
  alertPage : Nat := 0
  selected : Nat := 0
  recent : List Detection := []
  notice : Bytes := []
  exportStatus : ExportStatus := .Idle
  exportedRows : UInt32 := 0
  exportCount : UInt32 := 0
  ejectStatus : EjectStatus := .Idle

namespace View

/-! ## The two copies -/

/-- `demo ? preview_companion : companion`. -/
def book (v : View) (demo : Bool) : Companion := if demo then v.previewCompanion else v.companion

def setBook (v : View) (demo : Bool) (c : Companion) : View :=
  if demo then { v with previewCompanion := c } else { v with companion := c }

def collection (v : View) : Companion := v.book v.demo

def setCollection (v : View) (c : Companion) : View := v.setBook v.demo c

def snooze (v : View) (demo : Bool) : UInt64 := if demo then v.previewSnoozeUntil else v.snoozeUntil

def snoozedUntil (v : View) : UInt64 := v.snooze v.demo

def setSnooze (v : View) (until' : UInt64) : View :=
  if v.demo then { v with previewSnoozeUntil := until' } else { v with snoozeUntil := until' }

def look (v : View) : Appearance := if v.demo then v.previewAppearance else v.appearance

def setLook (v : View) (a : Appearance) : View :=
  if v.demo then { v with previewAppearance := a } else { v with appearance := a }

/-- The experience outfits are earned by. -/
def xp (v : View) (demo : Bool) : UInt32 := if demo then v.previewXp else v.pet.xp

/-- `unlock` of a book, with the outfits that are new. -/
def unlockOutfits (v : View) (demo : Bool) : UInt8 × View :=
  let r := (v.book demo).unlock (v.xp demo)
  (r.1, v.setBook demo r.2)

/-- `requests |= r`. -/
def request (v : View) (r : UiRequest) : View :=
  { v with requests := if r ∈ v.requests then v.requests else r :: v.requests }

/-! ## The ignore list -/

/-- `std::max(1U, (ignored_count() + 3) / 4)`. -/
def ignoredPages (v : View) : Nat :=
  max 1 ((v.collection.ignored.toList.countP (fun e => e.hash != 0) + 3) / 4)

/-- The slot of the entry with this ordinal among the used ones. -/
def ignoredSlot (v : View) (ordinal : Nat) : Option (Fin 64) :=
  ((List.finRange 64).filter fun i => (v.collection.ignored.get i).hash != 0)[ordinal]?

/-! ## Travel Watch -/

def listening (v : View) : Bool := !v.paused && (v.demo || v.scanning)

def watchEligible (v : View) (e : TagWatch.Entry) : Bool :=
  hasCategory v.settings.enabledCategories e.category &&
    hasCategory v.settings.alertCategories e.category &&
    decide (max 50 v.settings.threshold ≤ e.score) && !v.collection.isIgnored e.hash

def watchWarning (v : View) : Option TagWatch.Entry :=
  if !v.tagWatch.armed || v.tagWatch.demo != v.demo || !v.listening || decide (v.now < v.snoozedUntil) then
    none
  else
    (Slots.first (fun e => e.ready v.now && !e.acknowledged && v.watchEligible e) v.tagWatch.entries).map
      v.tagWatch.entries

/-- The body of the loop over the entries. -/
def dropWatch (v : View) (w : TagWatch) (i : TagWatch.Slot) : TagWatch :=
  let e := w.entries i
  if e.hash != 0 && (!e.fresh v.now || !v.watchEligible e || !v.listening) then w.drop i (!e.fresh v.now)
  else w

/-- A watch of the other mode is over. -/
def endOtherWatch (v : View) : View :=
  if v.tagWatch.demo != v.demo then { v with tagWatch := v.tagWatch.clear, watchReview := 0 } else v

def dropStale (v : View) : View :=
  { v with tagWatch := (List.finRange 16).foldl v.dropWatch v.tagWatch }

/-- The page that is open takes up a warning that has none under review. -/
def reviewWarning (v : View) : View :=
  if v.screen = .TagWatch ∧ v.watchReview = 0 then
    match v.watchWarning with
    | some warning => { v with watchReview := warning.hash }
    | none => v
  else v

def updateTagWatch (v : View) : View := v.endOtherWatch.dropStale.reviewWarning

def watchCount (v : View) : Nat :=
  (List.finRange 16).countP fun i =>
    (v.tagWatch.entries i).fresh v.now && v.watchEligible (v.tagWatch.entries i)

def openTagWatch (v : View) : View :=
  { v with
    watchReview := match v.watchWarning with
      | some warning => warning.hash
      | none => 0
    watchPage := 0
    screen := if v.watchWarning.isSome || !v.tagWatch.armed then .TagWatch else .WatchProgress }

/-! ## Identities and alerts -/

variable (hmac : Hmac)

/-- Zero without a key, or where the digest fails. -/
def identity (v : View) (d : Detection) : UInt64 :=
  if v.identityKey.all (· == 0) then 0 else mealHash hmac v.identityKey.toList d

/-- A list holds the identity, or the plain address of a broadcast identity. -/
def listed (v : View) (c : Companion) (d : Detection) : Bool :=
  c.isIgnored (v.identity hmac d) ||
    (samsungIdentity d && c.isIgnored (addressHash hmac v.identityKey.toList d))

def isIgnored (v : View) (d : Detection) : Bool :=
  v.identity hmac d != 0 && v.listed hmac (v.book d.demo) d

def alertAllowed (v : View) (d : Detection) : Bool :=
  !v.paused && shouldAlert v.settings d && decide (v.snooze d.demo ≤ v.now) && !v.isIgnored hmac d

/-- Freeze the target even if another event arrives. -/
def openActions (v : View) (d : Detection) : View :=
  { v with actionDetection := d, homeAlertShown := false, alertUntil := 0, notice := [], screen := .AlertActions }

/-! ## The pet -/

def resetScents (v : View) : View :=
  v.setCollection { v.collection with scents := Vector.replicate 19 {}, equipped := 0, unlocked := 1 }

def resetPet (v : View) : View :=
  if v.demo then { v with previewXp := 0, previewFullness := 70, previewMood := 70, previewDecayMs := v.now }
  else { v with pet := { decayMs := v.now } }

def resetProgress (v : View) : View :=
  let v := v.resetScents.resetPet
  { v with knownLevel := v.pet.level, unlockUntil := 0, levelUntil := 0, celebrationUntil := 0 }

def tickPet (v : View) : View :=
  if v.demo then
    let n := Pet.decayNeeds v.now ⟨v.previewDecayMs, v.previewFullness, v.previewMood⟩
    { v with previewDecayMs := n.clock, previewFullness := n.fullness, previewMood := n.mood }
  else { v with pet := v.pet.tick v.now }

end View

end Hound
