import Hound.Core.MealGuard
import Hound.Core.RulePackets
import Hound.Engine.Ingest
import Hound.Storage.Worker
import Hound.Ui.AlertTarget
import Hound.Ui.Battery

/-!
# The application's task

`app_task`: an iteration reads the clock, drains the radio, takes a touch and the
button, serves what the view has requested, adds the demo's own event, and looks
at the storage task, the battery and the display. Each of these is a step here,
and a step out of turn does nothing. What is handed to the storage task is logged,
whether its queue takes it or not.
-/

namespace Hound

/-- Tracks queue acceptance, not persistence. -/
structure SaveRetry where
  pending : Bool := false
  backupRequested : Bool := false
  attempted : UInt64 := 0
  accepted : UInt64 := 0

namespace SaveRetry

def due (s : SaveRetry) (now : UInt64) : Bool :=
  let previous := if s.pending then s.attempted else s.accepted
  decide (previous ≤ now) && decide ((if s.pending then 1000 else 60000) ≤ now - previous)

def result (s : SaveRetry) (now : UInt64) (queued : Bool) : SaveRetry :=
  { pending := !queued, backupRequested := s.backupRequested && !queued, attempted := now
    accepted := if queued then now else s.accepted }

end SaveRetry

/-! ## The touch panel -/

/-- `display::to_portrait` -/
def toPortrait (point : Int × Int) (portrait : Bool) : Int × Int :=
  if portrait then point else (319 - point.2, point.1)

/-- `display::from_portrait` -/
def fromPortrait (point : Int × Int) (portrait : Bool) : Int × Int :=
  if portrait then point else (point.2, 319 - point.1)

/-- `display::target` -/
def target (i : Fin 3) (portrait : Bool) : Int × Int :=
  if portrait then #v[(30, 160), (289, 180), (160, 390)].get i else #v[(30, 110), (449, 110), (240, 240)].get i

def targets (portrait : Bool) : Vector (Int × Int) 3 := Vector.ofFn fun i => toPortrait (target i portrait) portrait

namespace Board

open Float32

/-- A sum of three products of an `int` with a difference of two, each operation rounded to a `float`. -/
def cross (v d : Vector Int 3) : Model :=
  Model.ofInt (v.get 0) * Model.ofInt (d.get 0) + Model.ofInt (v.get 1) * Model.ofInt (d.get 1) +
    Model.ofInt (v.get 2) * Model.ofInt (d.get 2)

/-- Two coefficients and the offset that take the points to `v`. -/
def solve (p : Vector (Int × Int) 3) (det : Model) (v : Vector Int 3) : Model × Model × Model :=
  let x (i : Fin 3) := (p.get i).1
  let y (i : Fin 3) := (p.get i).2
  let a := cross v #v[y 1 - y 2, y 2 - y 0, y 0 - y 1] / det
  let b := cross v #v[x 2 - x 1, x 0 - x 2, x 1 - x 0] / det
  (a, b, Model.ofInt (v.get 0) - a * Model.ofInt (x 0) - b * Model.ofInt (y 0))

/-- `board::calibrate`, without fused operations. -/
def calibrate (p s : Vector (Int × Int) 3) : Option Calibration :=
  let y (i : Fin 3) := (p.get i).2
  let det := cross (p.map Prod.fst) #v[y 1 - y 2, y 2 - y 0, y 0 - y 1]
  if det.abs < Model.ofInt 10000 then none
  else
    let (ax, bx, cx) := solve p det (s.map Prod.fst)
    let (ay, bY, cy) := solve p det (s.map Prod.snd)
    some {
      ax := ⟨ax.toBits⟩, bx := ⟨bx.toBits⟩, cx := ⟨cx.toBits⟩, ay := ⟨ay.toBits⟩, bY := ⟨bY.toBits⟩, cy := ⟨cy.toBits⟩
      valid := .ofBool true }

end Board

namespace View

def utcNow (v : View) : UInt64 :=
  if v.clockSeconds != 0 && decide (v.clockSetMs ≤ v.now) then
    v.clockSeconds + (v.now - v.clockSetMs) / 1000
  else 0

def backupQueued (v : View) (accepted : Bool) : View :=
  v.note (if accepted then "BACKUP QUEUED" else "BACKUP PENDING / AUTO RETRY")

/-- The pet after a detection that the view has not seen yet. -/
def feedPet (v : View) (d : Detection) : View :=
  let pet := if d.seenCount == 1 then { v.pet with unique := v.pet.unique + 1 } else v.pet
  { v with pet := pet.feed d v.settings.lowFeeding.isSet }

end View

/-- What the firmware is built with: its rules, the key of its session, the digest and
`std::sort` at two types. -/
structure Platform where
  rules : List Rule
  sessionKey : Bytes
  hmac : Hmac
  sortRules : SortFn Rule
  sortStamps : SortFn MealStamp

/-- Where the task is in its loop. -/
inductive Phase where
  | head | radio | touch | button | serve | demo | rest
  deriving DecidableEq

open Worker (Message)

/-- The variables of the task. The settings and the pet of `state` are the view's. -/
structure App where
  view : View
  state : State := {}
  meals : MealGuard := {}
  saves : SaveRetry := {}
  engine : Engine
  realPet : Pet := {}
  /-- `storage::start` has made the queue. -/
  started : Bool := true
  queue : List Message := []
  radioStarted : Bool := false
  radioPaused : Bool := false
  calibrating : Bool := false
  rawPoints : Vector (Int × Int) 3 := Vector.replicate 3 (0, 0)
  calibrationStep : Nat := 0
  wasTouch : Bool := false
  wasButton : Bool := false
  buttonWoke : Bool := false
  buttonAt : UInt64 := 0
  demoAt : UInt64 := 0
  lastTouch : UInt64 := 0
  lastDiag : UInt64 := 0
  /-- `view.manual_backup_count` -/
  manualBackupCount : UInt32 := 0
  lastClears : UInt32 := 0
  critical : Nat := 0
  sleeping : Bool := false
  lowSound : UInt64 := 0
  phase : Phase := .head

/-- Steps of the task, with what they hand to the storage task. -/
abbrev AppIo := Logged Message

/-! ## What the calls report -/

/-- A received packet, and the clock after it was parsed. -/
structure Reception where
  now : UInt64
  packet : Packet
  /-- `health.checking`, as `append` reads it. -/
  checking : Bool := false
  /-- A save after a meal of this category finds a free snapshot slot. -/
  claimed : Category → Bool := fun _ => true

/-- A touch: its raw point, and where `board::map` puts that. -/
structure Press where
  raw : Int × Int
  point : Int × Int
  claimed : Bool := true
  radio : Bool := true

/-- The answers while the requests are served. -/
structure Service where
  checking : Bool := false
  saved : Bool := true
  backedUp : Bool := true
  ejectSaved : Bool := true
  resetSaved : Bool := true
  radio : Bool := true
  report : Bytes := []

/-- What the end of an iteration reads. -/
structure Readings where
  polled : View.Polled
  manualBackups : UInt32
  clears : UInt32
  sleepFailed : Bool := false
  ready : Bool := true
  adc : Int := -1
  retried : Bool := true
  saved : Bool := true
  slept : Bool := true

namespace App

/-! ## The storage task's queue -/

def send (a : App) (m : Message) : AppIo (Bool × App) := do
  Logged.tell [m]
  if a.started && decide (a.queue.length < 8) then pure (true, { a with queue := a.queue ++ [m] })
  else pure (false, a)

/-- A message with a State needs a snapshot slot first. -/
def sendSnapshot (a : App) (m : Message) (claimed : Bool) : AppIo (Bool × App) := do
  if claimed then a.send m
  else
    Logged.tell [m]
    pure (false, a)

def append (a : App) (d : Detection) (token : Bytes) (checking : Bool) : AppIo App :=
  if checking then pure a
  else do
    let (_, a) ← a.send
      (.Record ⟨d, token, a.view.settings.research.isSet, a.view.settings.region⟩)
    pure a

def sound (a : App) : AppIo App := do
  let (_, a) ← a.send .Sound
  pure a

def sendUnless (checking : Bool) (a : App) (m : Message) : AppIo (Bool × App) :=
  if checking then pure (false, a) else a.send m

variable (p : Platform)

/-- What `save` makes of `state`. -/
def assembled (a : App) : State :=
  { a.state with
    settings := a.view.settings, pet := a.view.pet, recent := a.meals.snapshot p.sortStamps a.view.now
    battery := a.view.batteryCal, companion := a.view.companion, appearance := a.view.appearance }

def save (a : App) (backup claimed : Bool) : AppIo App :=
  if a.view.demo then pure a
  else do
    let requested := a.saves.backupRequested || backup
    let state := a.assembled p
    let (accepted, a) ← { a with state, saves.backupRequested := requested }.sendSnapshot
      (if requested then .BackupIgnores state else .Save state) claimed
    let a := { a with saves := a.saves.result a.view.now accepted }
    pure (if requested then { a with view := a.view.backupQueued accepted } else a)

def beginRadio (a : App) (started : Bool) : App :=
  if a.view.demo || a.view.paused then a
  else
    let up := a.radioStarted || started
    { a with
      view := if up then a.view else a.view.note "RADIO INIT FAILED"
      radioStarted := up, radioPaused := !up }

/-! ## The radio -/

def award (a : App) (d : Detection) : Bool × MealGuard :=
  if d.category != .IBEACON || a.view.settings.ibeaconAlerts.isSet then
    a.meals.award
      { hash := mealHash p.hmac a.state.mealKey.toList d, now := a.view.now, category := d.category
        score := d.score, low := a.view.settings.lowFeeding.isSet }
  else (d.meal, a.meals)

def saveMeal (a : App) (d : Detection) (claimed : Category → Bool) : AppIo App :=
  if d.meal then a.save p false (claimed d.category) else pure a

def soundAlert (a : App) (d : Detection) : AppIo App :=
  if a.view.settings.sound.isSet && a.view.alertAllowed p.hmac d then a.sound else pure a

/-- The body of the loop over `found`. -/
def detected (r : Reception) (a : App) (e : Emission) : AppIo App :=
  let d := { e.detection with unixSeconds := a.view.utcNow }
  match privateToken p.hmac p.sessionKey d with
  | none => pure a
  | some token => do
    let (meal, meals) := a.award p d
    let d := { d with meal }
    let a ← { a with meals, view := (a.view.feedPet d).event p.hmac d }.saveMeal p d r.claimed
    let a ← a.append d token r.checking
    a.soundAlert p d

def hear (a : App) (r : Reception) : AppIo App :=
  if a.view.demo || a.calibrating || a.view.paused then pure a
  else match r.packet.observed with
    | none => pure a
    | some o =>
      let view := { a.view with now := r.now }.hear o false
      let (engine, found) := a.engine.ingest p.sortRules o view.settings 4
      found.foldlM (detected p r) { a with view, engine }

/-! ## Touch and button -/

def startCalibration (v : View) : View := (v.request .Calibrate).goto .Calibration

/-- The next of the three touches of a calibration. -/
def pointed (a : App) (t : Press) : App :=
  { a with rawPoints := a.rawPoints.setIfInBounds a.calibrationStep t.raw, calibrationStep := a.calibrationStep + 1 }

/-- The third touch of a calibration. -/
def calibrate (a : App) (t : Press) : AppIo App :=
  match Board.calibrate a.rawPoints (targets a.view.settings.portrait.isSet) with
  | none => pure { a with calibrationStep := 0 }
  | some calibration => do
    let onboarded := a.view.settings.onboarded.isSet
    let a := { a with
      state.calibration := calibration, calibrating := false
      view := a.view.goto (if onboarded then .Home else .Welcome) }
    let a ← a.save p false t.claimed
    pure (if onboarded then a.beginRadio t.radio else a)

def press (a : App) (t : Press) : AppIo App :=
  if a.calibrating then
    let a := a.pointed t
    if a.calibrationStep = 3 then a.calibrate p t else pure a
  else if a.state.calibration.valid.isSet then
    let point := fromPortrait t.point a.view.settings.portrait.isSet
    pure { a with view := a.view.tap p.hmac point.1 point.2 }
  else if a.view.screen = .Welcome then
    pure { a with view := startCalibration { a.view with settings.region := 0 } }
  else pure a

def held (a : App) (pressed : Bool) : App :=
  if pressed && a.wasTouch && !a.view.saverPreview then { a with view := (a.view.wakeDisplay false).2 } else a

def contact (a : App) (t : Press) : AppIo App :=
  let a := { a with view := { a.view with touchX := t.raw.1, touchY := t.raw.2 } }
  if !a.wasTouch && decide (150 < a.view.now - a.lastTouch) then
    ({ a with lastTouch := a.view.now } : App).press p t
  else pure a

def touch (a : App) (t : Option Press) : AppIo App := do
  let a ← t.elim (pure a) (contact p a)
  let a := a.held t.isSome
  pure { a with wasTouch := t.isSome, phase := .button }

/-- The button has gone up, and its press has not woken the display. -/
def release (a : App) (claimed : Bool) : AppIo App :=
  if 1000 ≤ a.view.now - a.buttonAt then
    { a with view := { a.view with settings.sound := .ofBool false } }.save p false claimed
  else if a.view.screen = .Welcome then pure { a with view := startCalibration a.view }
  else pure { a with view := a.view.next }

def push (a : App) (pressed : Bool) : App :=
  let a := if pressed && !a.wasButton then
      { a with
        buttonAt := a.view.now, buttonWoke := (a.view.wakeDisplay false).1
        view := (a.view.wakeDisplay false).2 }
    else a
  if pressed then { a with view := (a.view.wakeDisplay false).2 } else a

def letGo (a : App) (pressed claimed : Bool) : AppIo App :=
  if !pressed && a.wasButton && !a.buttonWoke then a.release p claimed else pure a

def button (a : App) (pressed claimed : Bool) : AppIo App := do
  let a ← (a.push pressed).letGo p pressed claimed
  pure { a with wasButton := pressed, phase := .serve }

/-! ## Requests -/

def calibrateRequested (a : App) : App :=
  { a with
    view := { a.view with follow := a.view.follow.restart a.view.now, tagWatch := a.view.tagWatch.clear }
    radioPaused := true, calibrating := true, calibrationStep := 0 }

def pauseRequested (a : App) (radio : Bool) : App :=
  if a.view.paused then { a with radioPaused := true }
  else if !a.calibrating then a.beginRadio radio
  else a

def clearRequested (a : App) (checking : Bool) : AppIo App :=
  if a.view.demo then pure a
  else do
    let (accepted, a) ← sendUnless checking a .Clear
    pure (if accepted then { a with view := a.view.note "LOG DELETE QUEUED" } else a)

/-- `view.export_queued(!view.demo && storage::export_history())` -/
def exportRequested (a : App) (checking : Bool) : AppIo App := do
  let (accepted, a) ← if a.view.demo then pure (false, a) else sendUnless checking a .Export
  pure { a with view := a.view.exportQueued accepted }

def ejectRequested (a : App) (claimed : Bool) : AppIo App :=
  if a.view.demo then pure a
  else do
    let a ← a.save p false claimed
    let (accepted, a) ← a.send .Eject
    pure { a with view := a.view.ejectQueued accepted }

def diagnostics (a : App) (report : Bytes) : AppIo App := do
  let (_, a) ← a.send (.Diagnostics report)
  pure a

def resetRequested (a : App) (claimed : Bool) : AppIo App :=
  { a with view := a.view.resetProgress }.save p false claimed

def demoRequested (a : App) (radio : Bool) : App :=
  let realPet := if a.view.demo then a.view.pet else a.realPet
  let a := if a.view.demo then { a with radioPaused := true } else a.beginRadio radio
  { a with view := a.view.switchDemo realPet, realPet }

/-- The requests in the order they are looked at; `Rotate` and `Invert` only reach the board. -/
def handlers (s : Service) : List (UiRequest × (App → AppIo App)) :=
  [(.Calibrate, fun a => pure a.calibrateRequested), (.Pause, fun a => pure (a.pauseRequested s.radio)),
    (.ClearLogs, fun a => a.clearRequested s.checking), (.Start, fun a => pure (a.beginRadio s.radio)),
    (.Save, fun a => a.save p false s.saved), (.BackupIgnores, fun a => a.save p true s.backedUp),
    (.Export, fun a => a.exportRequested s.checking), (.Eject, fun a => a.ejectRequested p s.ejectSaved),
    (.DiagnosticCopy, fun a => a.diagnostics s.report), (.Reset, fun a => a.resetRequested p s.resetSaved),
    (.Demo, fun a => pure (a.demoRequested s.radio))]

/-- `view.requests = 0` -/
def unasked (a : App) : App := { a with view := { a.view with requests := [] } }

/-- The handlers that were asked for. -/
def handle (asked : List UiRequest) (hs : List (UiRequest × (App → AppIo App))) (a : App) : AppIo App :=
  hs.foldlM (fun a h => if h.1 ∈ asked then h.2 a else pure a) a

def serve (a : App) (s : Service) : AppIo App := do
  let a ← handle a.view.requests (handlers p s) a.unasked
  pure { a with phase := .demo }

/-! ## The demo's events -/

def demoFlipper : Rule :=
  { id := ascii "demo.flipper", category := .FLIPPER, kind := .Protocol, value := ascii "synthetic"
    score := 85, cap := 100, generic := false, label := ascii "Synthetic Flipper"
    reason := ascii "DEMO: synthetic evidence only" }

def demoPineapple : Rule :=
  { id := ascii "demo.pineapple", category := .PINEAPPLE, kind := .Protocol, value := ascii "synthetic"
    score := 65, cap := 79, generic := false, label := ascii "Synthetic Pineapple"
    reason := ascii "DEMO: synthetic evidence only" }

def demoDetection (now : UInt64) : Detection :=
  let rule := if (now / 8000) % 2 != 0 then demoFlipper else demoPineapple
  { demo := true, meal := true, category := rule.category, rules := #v[some rule, none, none, none]
    ruleCount := 1, score := rule.score, seenCount := 1
    address := #v[2, 0, 0, 0, 0, (rule.category.code + 1).toUInt8]
    radio := if rule.category = .PINEAPPLE then .Wifi else .Ble
    firstMs := now, lastMs := now, rssiSum := -65, rssiMin := -70, rssiMax := -60 }

def demoSample (d : Detection) : Observation :=
  { address := d.address, radio := d.radio, ms := d.lastMs, rssi := -65 }

def synthesize (a : App) : App :=
  if a.view.demo && !a.view.paused && decide (8000 ≤ a.view.now - a.demoAt) then
    let d := demoDetection a.view.now
    { a with view := (a.view.hear (demoSample d) true).event p.hmac d, demoAt := a.view.now, phase := .rest }
  else { a with phase := .rest }

/-! ## The end of an iteration -/

def retry (a : App) (claimed : Bool) : AppIo App :=
  if !a.view.demo && a.saves.due a.view.now then a.save p false claimed else pure a

/-- What is read of the storage task. -/
def poll (a : App) (r : Readings) : App :=
  let answered := a.view.backupPending && r.manualBackups != a.manualBackupCount
  let view := { a.view with
    scanning := r.ready && !a.radioPaused
    backupPending := a.view.backupPending && !answered }.poll r.polled
  { a with
    view := if r.clears != a.lastClears then view.clearRecent else view
    manualBackupCount := r.manualBackups, lastClears := r.clears }

def beep (a : App) (millivolts : Int) : AppIo App :=
  if !a.view.demo && a.view.settings.sound.isSet && decide (0 ≤ millivolts) && decide (millivolts < 3500) &&
      (a.lowSound == 0 || decide (60000 < a.view.now - a.lowSound)) then do
    let a ← a.sound
    pure { a with lowSound := a.view.now }
  else pure a

def sleep (a : App) (r : Readings) : AppIo App :=
  if !a.view.demo && decide (5 ≤ a.critical) && !a.sleeping then do
    let a := { a with view := { a.view with paused := true }, radioPaused := true }
    let a ← a.save p false r.saved
    let state := { a.state with settings := a.view.settings, pet := a.view.pet }
    let (sleeping, a) ← if validCurrent state then a.sendSnapshot (.Sleep state) r.slept else pure (false, a)
    pure { a with sleeping, view := a.view.note "CRITICAL BATTERY - SAVING AND SLEEPING" }
  else pure a

/-- Every two seconds. -/
def battery (a : App) (r : Readings) : AppIo App :=
  if 2000 ≤ a.view.now - a.lastDiag then do
    let cal := a.view.batteryCal
    let millivolts := if cal.enabled.isSet then batteryMv cal r.adc else -1
    let low := !a.view.demo && decide (0 ≤ millivolts) && decide (millivolts < 3500)
    let view := { a.view with batteryAdc := r.adc }
    let a := { a with
      critical := if 0 ≤ millivolts ∧ millivolts ≤ 3300 then a.critical + 1 else 0
      view := if low then view.note "LOW BATTERY - CONNECT POWER" else view }
    let a ← a.beep millivolts
    let a ← a.sleep p r
    let view := if r.sleepFailed then a.view.note "SD FLUSH FAILED - CONNECT POWER" else a.view
    pure { a with view, lastDiag := a.view.now }
  else pure a

/-- A panel that is off is not drawn. -/
def present (a : App) : App :=
  let view := a.view.updateDisplay
  { a with view := if view.displayMode = .Off then view else view.renderFrame p.hmac, phase := .head }

def rest (a : App) (r : Readings) : AppIo App := do
  let a ← a.retry p r.retried
  let a ← (a.poll r).battery p r
  pure (a.present p)

/-! ## The loop -/

def head (a : App) (now : UInt64) : App :=
  { a with view := { a.view with now }.updateTagWatch.updateDisplay.tickPet, phase := .radio }

inductive Input where
  | head (now : UInt64)
  | packet (r : Reception)
  /-- No packet is left, or sixteen were taken. -/
  | drained
  | touch (t : Option Press)
  | button (pressed claimed : Bool)
  | serve (s : Service)
  | synthesize
  | rest (r : Readings)
  /-- The storage task takes a message. -/
  | taken

def stepIo (a : App) : Input → AppIo App
  | .head now => pure (if a.phase = .head then a.head now else a)
  | .packet r => if a.phase = .radio then a.hear p r else pure a
  | .drained => pure (if a.phase = .radio then { a with phase := .touch } else a)
  | .touch t => if a.phase = .touch then App.touch p a t else pure a
  | .button pressed claimed => if a.phase = .button then a.button p pressed claimed else pure a
  | .serve s => if a.phase = .serve then a.serve p s else pure a
  | .synthesize => pure (if a.phase = .demo then a.synthesize p else a)
  | .rest r => if a.phase = .rest then a.rest p r else pure a
  | .taken => pure { a with queue := a.queue.tail }

def step (a : App) (i : Input) : App := (a.stepIo p i).value

def handed (a : App) (i : Input) : List Message := (a.stepIo p i).log

/-- `app_main` before the task, with a State that was loaded. -/
structure Boot where
  now : UInt64 := 0
  started : Bool := true
  claimed : Bool := true
  radio : Bool := true

def loaded (s : State) : View :=
  { settings := s.settings, pet := s.pet, batteryCal := s.battery
    companion := (s.companion.unlock s.pet.xp).2
    appearance := s.appearance, previewAppearance := s.appearance
    identityKey := s.mealKey, knownLevel := s.pet.level }

def boot (s : State) (b : Boot) : AppIo App := do
  let view := loaded s
  let a : App :=
    { view := if b.started then view else view.note "STORAGE TASK FAILED / RESTART"
      state := s, meals := ({} : MealGuard).restore s.recent.toList, engine := { rules := p.rules }
      started := b.started }
  let a ← a.save p false b.claimed
  let calibrating := !s.calibration.valid.isSet
  let onboarded := a.view.settings.onboarded.isSet
  let a := { a with
    calibrating
    view := a.view.goto (if calibrating then .Calibration else if onboarded then .Home else .Welcome) }
  let a := if onboarded && !calibrating then a.beginRadio b.radio else a
  pure { a with view := ({ a.view with now := b.now }.wakeDisplay false).2 }

/-! ## Plain runs -/

/-- No rules and no digest. -/
def bare : Platform :=
  { rules := [], sessionKey := [], hmac := fun _ _ => none, sortRules := .insertion, sortStamps := .insertion }

def iteration (now : UInt64) (t : Option Press) : List Input :=
  [.head now, .drained, .touch t, .button false true, .serve {}, .synthesize,
    .rest { polled := ⟨true, false, false, false, false, false, 0, 0⟩, manualBackups := 0, clears := 0 }]

/-- A touch at this point of the wide panel. -/
def pressAt (x y : Int) : Press := { raw := (0, 0), point := (319 - y, x) }

/-- A touch every second, let go of after 20 ms. -/
def taps (start : UInt64) (points : List (Int × Int)) : List Input :=
  points.zipIdx.flatMap fun (point, i) =>
    iteration (start + i.toUInt64 * 1000) (some (pressAt point.1 point.2)) ++
      iteration (start + i.toUInt64 * 1000 + 20) none

/-- A State that the panel was calibrated with, and a name was chosen. -/
def welcomed : State :=
  { settings := { onboarded := .ofBool true }, calibration := { valid := .ofBool true }
    mealKey := Vector.replicate 32 1 }

/-- From home to the settings, and on to their fourth page. -/
def toFourthPage : List (Int × Int) := [(470, 310), (100, 250), (100, 250), (100, 250)]

end App

end Hound
