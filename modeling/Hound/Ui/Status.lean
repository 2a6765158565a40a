import Hound.Ui.View

/-!
# Export and eject status

A status is set by the tap that asks, by the answer of the queue, and by what the
card's health shows later.
-/

namespace Hound

namespace View

def requestEject (v : View) : View :=
  if v.demo then { v with ejectStatus := .Demo }
  else if v.ejectStatus = .Ejecting ∨ v.ejectStatus = .Safe ∨ v.ejectStatus = .Failed then v
  else if !v.sd then { v with ejectStatus := .NoCard }
  else { v with ejectStatus := .Ejecting }.request .Eject

def ejectQueued (v : View) (accepted : Bool) : View :=
  if v.ejectStatus = .Ejecting ∧ accepted = false then { v with ejectStatus := .QueueFull } else v

def ejectProgress (v : View) (stopped failed : Bool) : View :=
  if !v.demo && stopped then { v with ejectStatus := if failed then .Failed else .Safe } else v

def requestExport (v : View) : View :=
  if v.exportStatus = .Exporting then v
  else if v.demo then { v with exportStatus := .Demo }
  else if v.sdChecking then { v with exportStatus := .Checking }
  else if !v.sd ∨ v.ejectStatus = .Ejecting ∨ v.ejectStatus = .Safe ∨ v.ejectStatus = .Failed then
    { v with exportStatus := .NoCard }
  else if v.sdReadOnly then { v with exportStatus := .ReadOnly }
  else if v.sdError then { v with exportStatus := .Failed }
  else { v with exportStatus := .Exporting }.request .Export

def exportQueued (v : View) (accepted : Bool) : View :=
  if v.exportStatus = .Exporting ∧ accepted = false then { v with exportStatus := .QueueFull } else v

/-- `completed` is the worker's count of exports, `rows` those of its last one. -/
def exportProgress (v : View) (completed rows : UInt32) : View :=
  let v :=
    if v.exportStatus = .Exporting then
      if completed ≠ v.exportCount then { v with exportedRows := rows, exportStatus := .Complete }
      else if v.sdError then { v with exportStatus := .Failed }
      else if v.sdReadOnly then { v with exportStatus := .ReadOnly }
      else if !v.sd then { v with exportStatus := .NoCard }
      else v
    else v
  { v with exportCount := completed }

/-- What the loop reads of the card after it has served the requests. -/
structure Polled where
  mounted : Bool
  ejected : Bool
  ejectFailed : Bool
  failed : Bool
  checking : Bool
  readOnly : Bool
  exports : UInt32
  exportRows : UInt32
  deriving DecidableEq

def readCard (v : View) (p : Polled) : View := { v with sd := p.mounted && !p.ejected }

def readHealth (v : View) (p : Polled) : View :=
  { v with sdError := p.failed, sdChecking := p.checking, sdReadOnly := p.readOnly }

def warnReadOnly (v : View) : View :=
  if v.sdReadOnly then { v with notice := ascii "SD READ ONLY - CHECK LOGS ON COMPUTER" } else v

def poll (v : View) (p : Polled) : View :=
  ((((v.readCard p).ejectProgress p.ejected p.ejectFailed).readHealth p).exportProgress p.exports
    p.exportRows).warnReadOnly

end View

end Hound
