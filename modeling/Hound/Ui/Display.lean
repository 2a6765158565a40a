import Hound.Ui.View

/-!
# What lights the panel

Touches move the idle deadlines. An alert lights the panel through a window of its
own, and an update of the display chooses between that window and the idle stage.
-/

namespace Hound

namespace View

/-- `wake_display`; whether it was idle comes first. -/
def wakeDisplay (v : View) (alert : Bool) : Bool × View :=
  let wasIdle := v.displayMode != .Active
  (wasIdle,
    { v with
      screen := if alert && wasIdle then .Home else v.screen
      lastActivity := v.now, alertWakeUntil := 0, saverPreview := false, displayMode := .Active })

def windowHeld (v : View) : Bool :=
  v.alertWakeUntil != 0 &&
    (decide (v.now < v.alertWakeUntil) || decide (v.now - v.alertWakeUntil < 25000))

/-- A bounded five-second glance, at most once every thirty seconds. -/
def wakeForAlert (v : View) : View :=
  if v.windowHeld then v
  else
    { v with
      alertWakeUntil := v.now + 5000
      screen := if v.displayMode != .Active then .Home else v.screen
      saverPreview := false, displayMode := .Active }

def startSaver (v : View) : View :=
  { (v.wakeDisplay false).2 with saverSince := v.now, saverPreview := true, displayMode := .Saver }

end View

/-- `due`: a timeout of zero never is. -/
def timeoutDue (idle : UInt64) (minutes : UInt8) : Bool :=
  minutes != 0 && decide (minutes.toUInt64 * 60000 ≤ idle)

def idleStage (a : Appearance) (armed : Bool) (idle : UInt64) : DisplayMode :=
  if timeoutDue idle a.offMinutes && !armed then .Off
  else if timeoutDue idle a.saverMinutes then .Saver
  else if timeoutDue idle a.dimMinutes then .Dim
  else .Active

namespace View

def heldAwake (v : View) : Bool :=
  !v.settings.onboarded.isSet || v.screen == .Calibration || v.screen == .SelfTest ||
    v.watchWarning.isSome || v.exportStatus == .Exporting || v.ejectStatus == .Ejecting

def settleDisplay (v : View) : View :=
  if v.now < v.alertWakeUntil ∧ v.now < v.alertUntil then { v with displayMode := .Active }
  else
    let next := if v.saverPreview then .Saver
      else idleStage v.look v.tagWatch.armed (v.now - v.lastActivity)
    { v with
      saverSince := if next = .Saver ∧ v.displayMode ≠ .Saver ∧ v.saverPreview = false then
          v.lastActivity + v.look.saverMinutes.toUInt64 * 60000 else v.saverSince
      displayMode := next }

def updateDisplay (v : View) : View :=
  let v := if v.now < v.lastActivity then (v.wakeDisplay false).2 else v
  if v.heldAwake then (v.wakeDisplay v.watchWarning.isSome).2 else v.settleDisplay

end View

end Hound
