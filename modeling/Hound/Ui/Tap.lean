import Hound.Core.Utc
import Hound.Ui.Event
import Hound.Ui.Render
import Hound.Ui.Status

/-!
# Taps

`View::tap`, page by page. Boxes that a page checks one after the other are
checked one after the other here, whether or not they can overlap.
-/

namespace Hound

namespace View

def layout (v : View) : Layout := ⟨v.settings.portrait.isSet⟩

/-- `if (c) ...` among the statements of a page. -/
def on (v : View) (c : Bool) (f : View → View) : View := if c then f v else v

def home (v : View) : View := { v with screen := .Home }

def goto (s : Screen) (v : View) : View := { v with screen := s }

def note (text : String) (v : View) : View := { v with notice := ascii text }

/-! ## Buttons and bars -/

def rotate (v : View) : View :=
  let v := (v.wakeDisplay false).2
  if v.screen = .Calibration ∨ v.settings.rotationLocked.isSet then v
  else ({ v with settings.portrait := v.settings.portrait.toggle }.request .Save).request .Rotate

/-- The pages that BOOT and the navigation bar lead to; settings open at their first page. -/
def turnTo (s : Screen) (v : View) : View :=
  { v with screen := s, settingsPage := if s = .Settings then 0 else v.settingsPage }

def nextScreen : Screen → Screen
  | .Home => .Log
  | .Log => .Detectors
  | .Detectors => .Settings
  | _ => .Home

/-- BOOT. -/
def next (v : View) : View :=
  if (v.wakeDisplay false).1 then (v.wakeDisplay false).2
  else (v.wakeDisplay false).2.turnTo (nextScreen v.screen)

/-- `snoozed_until() > now ? 0 : now + 900000`, and no alert. -/
def toggleSnooze (v : View) : View :=
  { v.setSnooze (if v.now < v.snoozedUntil then 0 else v.now + 900000) with alertUntil := 0 }

def openWardrobe (v : View) : View :=
  let v := (v.unlockOutfits v.demo).2
  { v with wardrobeIndex := v.collection.equipped.toNat, screen := .Wardrobe }

/-! ## Travel Watch -/

def tapWatchProgress (v : View) (l : Layout) (x y : Int) : View :=
  v.on ((Rect.mk (l.w - 108) 32 96 25).has x y) (fun v =>
      { v with
        watchReview := match v.watchWarning with
          | some warning => warning.hash
          | none => 0
        screen := .TagWatch })
    |>.on ((l.confirm false).has x y) home
    |>.on ((l.confirm true).has x y) fun v =>
      { v with watchPage := (v.watchPage + 1) % max 1 ((v.watchCount + 3) / 4) }

def toggleWatch (v : View) : View :=
  let v := if v.tagWatch.armed then { v with tagWatch := v.tagWatch.clear }
    else { v with tagWatch := v.tagWatch.start v.now v.demo, screen := .WatchProgress, watchPage := 0 }
  { v with watchReview := 0, notice := [] }

section Identity

variable (hmac : Hmac)

/-- An alert that is still allowed stays. -/
def recheckAlert (v : View) : View :=
  if v.alertAllowed hmac v.alertDetection then v else { v with alertUntil := 0 }

/-- The entry under review, while it is still a warning. -/
def reviewed (v : View) : Option TagWatch.Slot :=
  match v.tagWatch.find v.watchReview with
  | some i =>
    if (v.tagWatch.entries i).ready v.now && v.watchEligible (v.tagWatch.entries i) then some i else none
  | none => none

def acknowledge (i : TagWatch.Slot) (v : View) : View :=
  { v with tagWatch := v.tagWatch.set i { v.tagWatch.entries i with acknowledged := true }, screen := .Home }

def ignoreWatched (e : TagWatch.Entry) (v : View) : View :=
  let r := v.collection.ignore e.hash e.category
  if r.1 then (((v.setCollection r.2).request .Save).recheckAlert hmac).updateTagWatch.home
  else v.note "IGNORE LIST FULL / REMOVE AN ENTRY"

def tapTagWatch (v : View) (l : Layout) (x y : Int) : View :=
  if (Rect.mk (l.w - 150) 32 78 25).has x y then { v with watchPage := 0, screen := .WatchProgress }
  else
    let v := v.on ((l.row 0).has x y) toggleWatch
      |>.on ((l.row 1).has x y) fun v => { v with watchFlash := !v.watchFlash }
    -- The target is frozen on opening this page, even when another tag qualifies.
    let target := v.reviewed
    if target.isNone && (l.row 2).has x y && v.watchWarning.isSome then v.openTagWatch
    else
      let v := match target with
        | some i =>
          v.on ((l.row 2).has x y) (acknowledge i)
            |>.on ((l.row 3).has x y) (ignoreWatched hmac (v.tagWatch.entries i))
        | none => v
      v.on ((l.row 4).has x y) home
        |>.on (l.more.has x y) fun v => v.toggleSnooze.home

/-! ## The alert card's page -/

/-- The target is the frozen one, in the list of its own mode. -/
def ignoreAction (v : View) : View :=
  let d := v.actionDetection
  let r := (v.book d.demo).ignore (v.identity hmac d) d.category
  if r.1 then
    (((v.setBook d.demo r.2).request .Save).recheckAlert hmac).updateTagWatch.home.note
      "IGNORED / LOGS AND MEALS KEPT"
  else v.note "IGNORE UNAVAILABLE OR FULL / REMOVE AN ENTRY"

def snoozeMinutes : List UInt64 := [5, 15, 60]

def tapAlertActions (v : View) (l : Layout) (x y : Int) : View :=
  match (List.range 3).find? fun i => (l.row i).has x y with
  | some i =>
    { v.setSnooze (v.now + snoozeMinutes.getD i 0 * 60000) with alertUntil := 0, screen := .Home }
  | none =>
    v.on ((l.row 3).has x y) (ignoreAction hmac)
      |>.on ((l.row 4).has x y) (fun v => (v.setSnooze 0).home)
      |>.on (l.more.has x y) home

end Identity

/-! ## Home -/

def toggleSniffing (v : View) : View :=
  let paused := !v.paused
  { v with
    paused, follow := v.follow.restart v.now
    tagWatch := if v.tagWatch.armed then v.tagWatch.start v.now v.demo else v.tagWatch
    watchReview := 0, alertUntil := 0, mealUntil := 0, happyUntil := 0, celebrationUntil := 0
    scanning := !paused, notice := [] }.request .Pause

def petHound (v : View) : View :=
  let v := { v with pets := if v.pets != 0xffffffff then v.pets + 1 else v.pets }
  let v := if v.demo then { v with previewMood := Pet.stroked v.previewMood } else { v with pet := v.pet.stroke }
  { v with happyUntil := v.now + 2500 }

/-- `nav[]`. -/
def barScreen : Nat → Screen
  | 0 => .Home
  | 1 => .Log
  | 2 => .Detectors
  | _ => .Settings

/-- The navigation bar, which the pages past it share. -/
def navigate (v : View) (l : Layout) (x : Int) : View := v.turnTo (barScreen (x / (l.w / 4)).toNat)

def onBar (v : View) (l : Layout) (y : Int) : Bool := v.settings.onboarded.isSet && decide (l.h - 44 ≤ y)

def onHound (l : Layout) (x y : Int) : Bool :=
  decide (64 ≤ y) && decide (y < if l.portrait then 308 else 254) && (l.portrait || decide (x < 300))

def tapHome (v : View) (l : Layout) (x y : Int) : View :=
  if l.homeBook.has x y then { v with screen := .ScentBook }
  else if l.homeWardrobe.has x y ∧ v.alertUntil ≤ v.now then v.openWardrobe
  else if l.sniff.has x y then v.toggleSniffing
  -- Radio events run before touch: what was drawn counts, not the backing alert.
  else if v.homeAlertShown ∧ l.quiet.has x y then v.openActions v.actionDetection
  else if v.watchWarning.isSome ∧ l.quiet.has x y then v.openTagWatch
  else if ¬ v.framePresented ∧ v.now < v.alertUntil ∧ l.quiet.has x y then v.openActions v.alertDetection
  else if v.follow.active ∧ l.homeFollow.has x y then { v with screen := .Follow }
  else if v.onBar l y then v.navigate l x
  else if v.now < v.alertUntil then { v with alertUntil := 0 }
  else if onHound l x y then v.petHound
  else v

/-! ## Pages of choices -/

def tapFollow (v : View) (l : Layout) (x y : Int) : View :=
  v.on ((l.confirm false).has x y) home
    |>.on ((l.confirm true).has x y) fun v => { v with follow := {}, screen := .Home }

def tapDisplay (v : View) (l : Layout) (x y : Int) : View :=
  v.on ((l.row 0).has x y) (fun v =>
      { v with settings.brightness :=
          if 100 ≤ v.settings.brightness then 20 else v.settings.brightness + 20 }.request .Save)
    |>.on ((l.row 1).has x y) (fun v =>
      ((v.setLook { v.look with inverted := v.look.inverted ^^^ 1 }).request .Save).request .Invert)
    |>.on ((l.row 2).has x y) (fun v =>
      { v with settings.reducedAnimation := v.settings.reducedAnimation.toggle }.request .Save)
    |>.on ((l.row 3).has x y) (goto .SelfTest)
    |>.on ((l.row 4).has x y) (goto .IdleDisplay)
    |>.on (l.more.has x y) (goto .Settings)

def tapIdleDisplay (v : View) (l : Layout) (x y : Int) : View :=
  v.on ((l.row 0).has x y) (fun v =>
      (v.setLook { v.look with dimMinutes := nextTimeout v.look.dimMinutes }).request .Save)
    |>.on ((l.row 1).has x y) (fun v =>
      (v.setLook { v.look with saverMinutes := nextTimeout v.look.saverMinutes }).request .Save)
    |>.on ((l.row 2).has x y) (fun v =>
      (v.setLook { v.look with offMinutes := nextTimeout v.look.offMinutes }).request .Save)
    |>.on ((l.row 3).has x y) startSaver
    |>.on ((l.row 4).has x y) (goto .Display)
    |>.on (l.more.has x y) home

def tapAppearance (v : View) (l : Layout) (x y : Int) : View :=
  (v.on ((l.row 0).has x y) (fun v => v.setLook { v.look with theme := (v.look.theme + 1) % 3 })
    |>.on ((l.row 1).has x y) (fun v => v.setLook { v.look with scene := (v.look.scene + 1) % 3 })
    |>.on ((l.row 2).has x y) (fun v => v.setLook { v.look with speech := (v.look.speech + 1) % 3 })
    |>.on ((l.row 3).has x y) (fun v => v.setLook { v.look with compact := v.look.compact ^^^ 1 })
    |>.on ((l.row 4).has x y) (goto .Settings)
    |>.on (l.more.has x y) home).request .Save

/-- `std::size(coverage_guide)`. -/
def coveragePages : Nat := 5

def tapCoverage (v : View) (l : Layout) (x y : Int) : View :=
  if (l.confirm false).has x y then { v with screen := .ScentBook }
  else if (l.confirm true).has x y then { v with coveragePage := (v.coveragePage + 1) % coveragePages }
  else v

/-- The body of the loop over the six cards. -/
def tapScent (l : Layout) (x y : Int) (v : View) (i : Nat) : View :=
  v.on ((l.book i).has x y && decide (v.bookPage * 6 + i < categoryCount)) fun v =>
    { v with scentIndex := v.bookPage * 6 + i, scentPage := 0, screen := .ScentCard }

def tapScentBook (v : View) (l : Layout) (x y : Int) : View :=
  if l.bookCoverage.has x y then { v with coveragePage := 0, screen := .Coverage }
  else if (l.confirm false).has x y then { v with screen := .Settings }
  else if (l.confirm true).has x y then { v with bookPage := (v.bookPage + 1) % 4 }
  else (List.range 6).foldl (tapScent l x y) v

def tapScentCard (v : View) (l : Layout) (x y : Int) : View :=
  v.on ((l.confirm false).has x y) (goto .ScentBook)
    |>.on ((l.confirm true).has x y) fun v => { v with scentPage := (v.scentPage + 1) % 3 }

def tapWardrobe (v : View) (l : Layout) (x y : Int) : View :=
  let v := v.on ((Rect.mk 12 68 44 120).has x y) (fun v =>
      { v with wardrobeIndex := (v.wardrobeIndex + outfitCount - 1) % outfitCount })
    |>.on ((Rect.mk (l.w - 56) 68 44 120).has x y) (fun v =>
      { v with wardrobeIndex := (v.wardrobeIndex + 1) % outfitCount })
    |>.on ((l.confirm false).has x y) (goto .Settings)
  v.on ((l.confirm true).has x y && v.collection.unlocked.toNat.testBit v.wardrobeIndex) fun v =>
    (v.setCollection { v.collection with equipped := v.wardrobeIndex.toUInt8 }).request .Save

def tapIgnoreBackup (v : View) (l : Layout) (x y : Int) : View :=
  v.on ((l.row 0).has x y) (fun v =>
      if v.demo then v.note "DEMO / NO SD WRITES"
      else if !v.backupPending then
        ({ v with backupPending := true }.request .BackupIgnores).note "BACKUP REQUESTED"
      else v)
    |>.on (l.more.has x y) (goto .Ignored)

/-- `std::min(ignored_page, int(ignored_pages()) - 1)`. -/
def clampIgnored (v : View) : View := { v with ignoredPage := min v.ignoredPage (v.ignoredPages - 1) }

def dropIgnored (l : Layout) (x y : Int) (v : View) (i : Nat) : View :=
  v.on ((l.detector i).has x y) fun v =>
    match v.ignoredSlot (v.ignoredPage * 4 + i) with
    | some slot =>
      ((v.setCollection { v.collection with ignored := Slots.put v.collection.ignored slot {} }).request
        .Save).clampIgnored
    | none => v

def tapIgnored (v : View) (l : Layout) (x y : Int) : View :=
  let v := v.clampIgnored
    |>.on ((l.confirm false).has x y) (goto .Settings)
    |>.on ((l.confirm true).has x y) (fun v =>
      { v with ignoredPage := (v.ignoredPage + 1) % v.ignoredPages })
    |>.on ((Rect.mk (l.w - 148) (l.h - 42) 136 30).has x y) fun v =>
      { v with screen := .IgnoreBackup, notice := [] }
  (List.range 4).foldl (dropIgnored l x y) v

/-! ## Setting up -/

/-- `std::strlen` of a name or of the clock's digits. -/
def strlen (text : Vector UInt8 13) : Nat := (cString text.toList).length

/-- `text[n] = c; text[n + 1] = 0`. -/
def typeChar (text : Vector UInt8 13) (n : Nat) (c : UInt8) : Vector UInt8 13 :=
  (text.setIfInBounds n c).setIfInBounds (n + 1) 0

def tapClock (v : View) (l : Layout) (x y : Int) : View :=
  let n := strlen v.clockInput
  match (List.range 10).find? fun i => (l.clockDigit i).has x y && decide (n < 12) with
  | some i => { v with clockInput := typeChar v.clockInput n (48 + i.toUInt8) }
  | none =>
    v.on ((Rect.mk 16 80 (l.w - 32) 32).has x y && decide (n ≠ 0)) (fun v =>
        { v with clockInput := v.clockInput.setIfInBounds (n - 1) 0 })
      |>.on ((l.confirm false).has x y) (goto .Settings)
      |>.on ((l.confirm true).has x y) fun v =>
        match parseUtc (cString v.clockInput.toList) with
        | some seconds =>
          { v with clockSeconds := seconds.toUInt64, clockSetMs := v.now, screen := .Settings, notice := [] }
        | none => v.note "USE YYYYMMDDHHMM / VALID UTC DATE"

/-- `std::clamp(int(v) + delta, 2500, 4500)`. -/
def stepMillivolts (mv : UInt16) (delta : Int) : UInt16 :=
  (max 2500 (min 4500 (mv.toNat + delta))).toNat.toUInt16

def tapBattery (v : View) (l : Layout) (x y : Int) : View :=
  v.on ((l.row 0).has x y) (fun v => { v with batteryPoint := v.batteryPoint + 1 })
    |>.on ((l.row 1).has x y) (fun v =>
      { v with batteryCal :=
        { v.batteryCal with
          millivolts := Slots.put v.batteryCal.millivolts v.batteryPoint
            (stepMillivolts (v.batteryCal.millivolts.get v.batteryPoint) (if x < l.w / 2 then -50 else 50))
          enabled := .ofBool false } }.request .Save)
    |>.on ((l.row 2).has x y && decide (0 ≤ v.batteryAdc) && decide (v.batteryAdc ≤ 4095)) (fun v =>
      { v with batteryCal :=
        { v.batteryCal with
          adc := Slots.put v.batteryCal.adc v.batteryPoint v.batteryAdc.toNat.toUInt16
          enabled := .ofBool false } }.request .Save)
    |>.on ((l.row 3).has x y) (fun v =>
      { v with batteryCal :=
        { v.batteryCal with
          enabled := .ofBool (!v.batteryCal.enabled.isSet && validBattery v.batteryCal) } }.request .Save)
    |>.on ((l.row 4).has x y) (fun v => { v with batteryCal := {} }.request .Save)
    |>.on (l.more.has x y) (goto .Settings)

def tapSelfTest (v : View) (l : Layout) (x y : Int) : View :=
  if l.more.has x y then { v with screen := .Settings }
  else { v with selfTestTaps := v.selfTestTaps + 1, touchX := x, touchY := y }

def tapClearWarning (v : View) (l : Layout) (x y : Int) : View :=
  v.on ((l.confirm false).has x y) (goto .Settings)
    |>.on ((l.confirm true).has x y) fun v => (v.request .ClearLogs).goto .Settings

def tapWelcome (v : View) (l : Layout) (x y : Int) : View :=
  if (l.confirm false).has x y || (l.confirm true).has x y then
    { v with settings.region := if x < l.w / 2 then 0 else 1, screen := .Choose }.request .Save
  else v

def tapChoose (v : View) (l : Layout) (x y : Int) : View :=
  match (List.range 6).find? fun i => (l.choice i).has x y with
  | some i => { v with settings.character := i.toUInt8, screen := .Name }.request .Save
  | none => v

def keys : Bytes := ascii "ABCDEFGHIJKLMNOPQRSTUVWXYZ0123"

def tapName (v : View) (l : Layout) (x y : Int) : View :=
  let n := strlen v.settings.name
  match (List.range 30).find? fun i => (l.key i).has x y && decide (n < 12) with
  | some i => { v with settings.name := typeChar v.settings.name n (keys.getD i 0) }
  | none =>
    v.on ((l.confirm false).has x y && decide (n ≠ 0)) (fun v =>
        { v with settings.name := v.settings.name.setIfInBounds (n - 1) 0 })
      |>.on ((l.confirm true).has x y && decide (n ≠ 0)) fun v =>
        { v with screen := if v.settings.onboarded.isSet then .Home else .Privacy }.request .Save

/-- The end of the first run, with the choice about raw logs. -/
def onboard (research : Bool) (v : View) : View :=
  ({ v with
    settings.research := .ofBool research, settings.onboarded := .ofBool true
    screen := .Home }.request .Save).request .Start

def tapPrivacy (v : View) (l : Layout) (x y : Int) : View :=
  if (l.confirm false).has x y then v.onboard false
  else if (l.confirm true).has x y then { v with screen := .ResearchWarning }
  else v

/-- The two warnings share their page; `reset` tells them apart. -/
def tapWarning (v : View) (reset : Bool) (l : Layout) (x y : Int) : View :=
  if (l.confirm false).has x y then
    { v with screen := if v.settings.onboarded.isSet then .Settings else .Privacy }
  else if (l.confirm true).has x y then
    if reset then (v.request .Reset).goto .Settings else v.onboard true
  else v

/-! ## The list and its details -/

def followScent (v : View) (d : Detection) : View :=
  { v with follow := .select d v.now, alertUntil := 0, screen := .Follow }

def openDetail (v : View) : View :=
  match v.detail with
  | some d => v.openActions d
  | none => v

def tapDetails (v : View) (l : Layout) (x y : Int) : View :=
  match v.detail, (Rect.mk 12 (l.h - 40) (l.w - 24) 32).has x y with
  | some d, true => v.followScent d
  | _, _ =>
    v.on ((Rect.mk (l.w - 108) 32 96 30).has x y) (fun v => { v with detailPage := 1 - v.detailPage })
      |>.on ((l.confirm false).has x y) (goto .Log)
      |>.on ((l.confirm true).has x y) openDetail

def openDetails (v : View) (selected : Nat) : View :=
  match v.recent[selected]? with
  | none => v
  | some d =>
    let (track, drones) := v.drones.find d.address d.addressType v.now
    { v with
      selected, drones, detailDetection := d, detailDrone := track.getD {}
      detailValid := true, detailPage := 0, screen := .Details }

def tapLog (v : View) (l : Layout) (x y : Int) : View :=
  if l.more.has x y then { v with logPage := (v.logPage + 1) % max 1 ((v.recent.length + 3) / 4) }
  else (List.range 4).foldl (fun v i => v.on ((l.log i).has x y) (openDetails · (v.logPage * 4 + i))) v

/-- `mask ^= 1U << index`. -/
def flipBit (mask : UInt32) (index : Nat) : UInt32 := mask ^^^ (1 <<< index.toUInt32)

def flipDetector (index : Nat) (v : View) : View :=
  if index < categoryCount then
    { v with settings.enabledCategories := flipBit v.settings.enabledCategories index }.request .Save
  else v

def tapDetectors (v : View) (l : Layout) (x y : Int) : View :=
  if l.more.has x y then { v with detectorPage := (v.detectorPage + 1) % 5 }
  else (List.range 4).foldl (fun v i => v.on ((l.detector i).has x y) (flipDetector (v.detectorPage * 4 + i))) v

def flipAlert (index : Nat) (v : View) : View :=
  if index < categoryCount then
    let mask := flipBit v.settings.alertCategories index
    let v := { v with settings.alertCategories := mask }
    let v := if index = Category.IBEACON.code then
        { v with settings.ibeaconAlerts := .ofBool (hasCategory mask .IBEACON) } else v
    let v := if v.now < v.alertUntil ∧ v.alertDetection.category.code = index ∧
          shouldAlert v.settings v.alertDetection = false then { v with alertUntil := 0 } else v
    v.request .Save
  else v

def tapAlerts (v : View) (l : Layout) (x y : Int) : View :=
  if l.more.has x y then { v with alertPage := (v.alertPage + 1) % 5 }
  else (List.range 4).foldl (fun v i => v.on ((l.detector i).has x y) (flipAlert (v.alertPage * 4 + i))) v

def tapDiagnostics (v : View) (l : Layout) (x y : Int) : View :=
  v.on (l.more.has x y) (fun v => { v with diagnosticPage := (v.diagnosticPage + 1) % 3 })
    |>.on ((Rect.mk (l.w - 90) 35 78 24).has x y) (·.request .DiagnosticCopy)

/-! ## Settings -/

def toggleDemo (v : View) : View :=
  let demo := !v.demo
  { v with
    demo, previewAppearance := if demo then v.appearance else v.previewAppearance
    follow := {}, tagWatch := v.tagWatch.clear, watchReview := 0, screen := .Home }.request .Demo

def nextThreshold (threshold : UInt8) : UInt8 :=
  if threshold = 80 then 20 else if threshold = 20 then 50 else 80

/-- The third page: every row changes a preference and saves. -/
def changePreference (v : View) (row : Nat) : View :=
  let s := v.settings
  let s : Settings := match row with
    | 0 => { s with sound := s.sound.toggle }
    | 1 => { s with threshold := nextThreshold s.threshold }
    | 2 => { s with region := (s.region + 1) % 2 }
    | 3 => { s with lowFeeding := s.lowFeeding.toggle }
    | _ => { s with ibeaconAlerts := s.ibeaconAlerts.toggle
                    alertCategories := s.alertCategories ^^^ Category.IBEACON.bit }
  { v with settings := s }.request .Save

def changeResearch (v : View) : View :=
  if v.settings.research.isSet then { v with settings.research := .ofBool false }.request .Save
  else { v with screen := .ResearchWarning }

def settingsRow (v : View) (row : Nat) : View :=
  match v.settingsPage, row with
  | 0, 0 => v.openWardrobe
  | 0, 1 => { v with screen := .Appearance }
  | 0, 2 => { v with screen := .ScentBook }
  | 0, 3 => { v with screen := .Ignored }
  | 0, _ => v.toggleSnooze
  | 1, 0 => { v with settings.rotationLocked := v.settings.rotationLocked.toggle }.request .Save
  | 1, 1 => v.rotate
  | 1, 2 => { v with screen := .Display }
  | 1, 3 => { v with settings.reducedAnimation := v.settings.reducedAnimation.toggle }.request .Save
  | 1, _ => { v with screen := .Alerts }
  | 2, row => v.changePreference row
  | 3, 0 => v.changeResearch
  | 3, 1 => v.requestExport
  | 3, 2 => v.requestEject
  | 3, 3 => v.toggleDemo
  | 3, _ => { v with screen := .Diagnostics }
  | 5, 0 => { v with screen := .Clock }
  | 5, 1 => { v with screen := .Battery }
  | 5, 2 => { v with screen := .ClearWarning }
  | 5, 3 => { v with screen := .SelfTest }
  | 5, _ => v.requestExport
  | _, 0 => (v.request .Calibrate).goto .Calibration
  | _, 1 => { v with screen := .ResetWarning }
  | _, 2 => { v with screen := .Choose }
  | _, 3 => { v with settingsPage := 1 }
  | _, _ => { v with screen := .Home }

/-- The last of the five rows that has the point. -/
def rowAt (l : Layout) (x y : Int) : Option Nat := ((List.range 5).filter fun i => (l.row i).has x y).getLast?

def tapSettings (v : View) (l : Layout) (x y : Int) : View :=
  if l.more.has x y then { v with settingsPage := (v.settingsPage + 1) % 6 }
  else match rowAt l x y with
    | some row => v.settingsRow row
    | none => v

/-! ## The whole -/

variable (hmac : Hmac)

/-- The page's own part of a tap. -/
def tapPage (v : View) (l : Layout) (x y : Int) : View :=
  match v.screen with
  | .Home => v.tapHome l x y
  | .Follow => v.tapFollow l x y
  | .Display => v.tapDisplay l x y
  | .IdleDisplay => v.tapIdleDisplay l x y
  | .Appearance => v.tapAppearance l x y
  | .Coverage => v.tapCoverage l x y
  | .ScentBook => v.tapScentBook l x y
  | .ScentCard => v.tapScentCard l x y
  | .Wardrobe => v.tapWardrobe l x y
  | .AlertActions => v.tapAlertActions hmac l x y
  | .IgnoreBackup => v.tapIgnoreBackup l x y
  | .Ignored => v.tapIgnored l x y
  | .Clock => v.tapClock l x y
  | .Battery => v.tapBattery l x y
  | .SelfTest => v.tapSelfTest l x y
  | .ClearWarning => v.tapClearWarning l x y
  | .Welcome => v.tapWelcome l x y
  | .Choose => v.tapChoose l x y
  | .Name => v.tapName l x y
  | .Privacy => v.tapPrivacy l x y
  | .ResearchWarning => v.tapWarning false l x y
  | .ResetWarning => v.tapWarning true l x y
  | .Details => v.tapDetails l x y
  | .Log => if v.onBar l y then v.navigate l x else v.tapLog l x y
  | .Detectors => if v.onBar l y then v.navigate l x else v.tapDetectors l x y
  | .Alerts => if v.onBar l y then v.navigate l x else v.tapAlerts l x y
  | .Diagnostics => if v.onBar l y then v.navigate l x else v.tapDiagnostics l x y
  | .Settings => if v.onBar l y then v.navigate l x else v.tapSettings l x y
  | .Calibration | .WatchProgress | .TagWatch => v

/-- A tap on a lit panel. -/
def tapLit (v : View) (l : Layout) (x y : Int) : View :=
  if y < 26 ∧ x < 174 ∧ v.watchWarning.isSome then v.openTagWatch
  else if (v.screen = .Home ∧ l.homeWatch.has x y) ∨
      (v.screen = .Settings ∧ v.settingsPage = 0 ∧ l.settingsWatch.has x y) then v.openTagWatch
  else if v.screen = .WatchProgress then v.tapWatchProgress l x y
  else if v.screen = .TagWatch then v.tapTagWatch hmac l x y
  else if y < 26 ∧ l.w - 60 ≤ x then v.rotate
  else v.tapPage hmac l x y

def tap (v : View) (x y : Int) : View :=
  let l := v.layout
  if x < 0 ∨ y < 0 ∨ l.w ≤ x ∨ l.h ≤ y ∨ v.screen = .Calibration then v
  else if (v.wakeDisplay false).1 then (v.wakeDisplay false).2
  else (v.wakeDisplay false).2.tapLit hmac l x y

end View

end Hound
