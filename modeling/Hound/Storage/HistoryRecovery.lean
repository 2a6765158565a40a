import Hound.Records.ValidateLog
import Hound.Records.WriteRecord

/-!
# Startup recovery

`HistoryRecovery` of `history_recovery.cpp`: the log files are validated a few
lines at a time, and an incomplete line at the end of a file is cut off. What
the stdio calls of one pass through the loop report is the pass's `RecoveryPass`; what
they do to the card is listed as events.
-/

namespace Hound

/-! ## Operations on the card -/

/-- What a file on the card is for. -/
inductive CardFile where
  | log
  | history
  | export
  | backup
  | crash
  deriving DecidableEq

/-- One operation on the card, with what it reported. -/
inductive CardEvent where
  | opened (file : CardFile) (ok : Bool)
  | read (file : CardFile)
  | wrote (file : CardFile) (ok : Bool)
  | flushed (file : CardFile) (ok : Bool)
  | synced (file : CardFile) (ok : Bool)
  | closed (file : CardFile) (ok : Bool)
  | sought (file : CardFile) (ok : Bool)
  | truncated (path : Bytes) (size : Nat) (ok : Bool)
  | unlinked (ok : Bool)
  | madeDir (ok : Bool)
  | openedDir (ok : Bool)
  | readDir
  | closedDir (ok : Bool)
  | queriedSpace
  deriving DecidableEq

/-! ## The reader -/

structure HistoryRecovery where
  root : Bytes := []
  directory : Bool := false
  input : Bool := false
  path : Bytes := []
  good : Nat := 0
  readOnly : Bool := false
  closeFailed : Bool := false
  files : UInt32 := 0
  rows : UInt32 := 0
  errors : UInt32 := 0
  deriving DecidableEq

/-- What `readdir` returns: an entry, or null with or without an error. -/
inductive Readdir where
  | entry (name : Bytes)
  | done
  | failed

structure RecoveryPass where
  entry : Readdir := .done
  opened : Bool := true
  /-- What `fgets` puts in the buffer. -/
  line : Option Bytes := none
  eof : Bool := false
  streamError : Bool := false
  /-- `ftell`, `none` where it is negative. -/
  told : Option Nat := none
  closed : Bool := true
  reopened : Bool := true
  truncated : Bool := true
  synced : Bool := true
  reclosed : Bool := true
  directoryClosed : Bool := true

/-- `name.ends_with(".JSONL")` and no slash in it. -/
def logName (name : Bytes) : Bool :=
  (name.drop (name.length - 6) == ascii ".JSONL") && !name.contains 47

namespace HistoryRecovery

def active (r : HistoryRecovery) : Bool := r.directory

def error (r : HistoryRecovery) : HistoryRecovery := { r with readOnly := true, errors := r.errors + 1 }

/-- `begin`, with what `opendir` reports. -/
def begin (r : HistoryRecovery) (root : Bytes) (opened : Bool) : HistoryRecovery × List CardEvent :=
  if r.active || r.input then (r, [])
  else
    let r := { r with root, directory := opened }
    (if opened then r else r.error, [.openedDir opened])

def closeInput (r : HistoryRecovery) (closed : Bool) : HistoryRecovery × List CardEvent :=
  if r.input then
    let r := if closed then r else { r with closeFailed := true }.error
    ({ r with input := false }, [.closed .history closed])
  else (r, [])

def cancel (r : HistoryRecovery) (closed directoryClosed : Bool) : HistoryRecovery × List CardEvent :=
  let (r, events) := r.closeInput closed
  if r.directory then
    let r := if directoryClosed then r else { r with closeFailed := true }.error
    ({ r with directory := false }, events ++ [.closedDir directoryClosed])
  else (r, events)

/-- What `cancel` returns. -/
def cancelled (r : HistoryRecovery) : Bool := !r.closeFailed

/-- Cut the file at the end of its last good line. -/
def repair (r : HistoryRecovery) (p : RecoveryPass) : HistoryRecovery × List CardEvent :=
  if !p.reopened then (r.error, [.opened .history false])
  else
    let r := { r with input := true }
    let r := if p.truncated && p.synced then r else { r with closeFailed := true }.error
    let events := if p.truncated then [.truncated r.path r.good true, .synced .history p.synced]
      else [.truncated r.path r.good false]
    let (r, closing) := r.closeInput p.reclosed
    (r, .opened .history true :: (events ++ closing))

def finishFile (r : HistoryRecovery) (partial' : Bool) (p : RecoveryPass) : HistoryRecovery × List CardEvent :=
  let r := if p.streamError then r.error else r
  let (r, events) := r.closeInput p.closed
  if !partial' || r.readOnly then (r, events)
  else
    let (r, more) := r.repair p
    (r, events ++ more)

/-- The pass when no file is open: the next directory entry. -/
def nextFile (r : HistoryRecovery) (p : RecoveryPass) : HistoryRecovery × List CardEvent :=
  match p.entry with
  | .failed =>
    let (r, events) := r.error.cancel p.closed p.directoryClosed
    (r, .readDir :: events)
  | .done =>
    let (r, events) := r.cancel p.closed p.directoryClosed
    (r, .readDir :: events)
  | .entry name =>
    if !logName name then (r, [.readDir])
    else
      let r := { r with files := r.files + 1 }
      if (4096 : UInt32) < r.files then
        let (r, events) := r.error.cancel p.closed p.directoryClosed
        (r, .readDir :: events)
      else
        let path := r.root ++ (ascii "/" ++ name)
        let r := { r with path := snprintf 300 path }
        if 300 ≤ path.length then (r.error, [.readDir])
        else if !p.opened then (r.error, [.readDir, .opened .history false])
        else ({ r with input := true, good := 0 }, [.readDir, .opened .history true])

/-- The pass when a file is open: its next line. -/
def nextLine (r : HistoryRecovery) (p : RecoveryPass) : HistoryRecovery × List CardEvent :=
  match p.line with
  | none =>
    let (r, events) := r.finishFile false p
    (r, .read .history :: events)
  | some scratch =>
    let text := cString scratch
    if text.getLast? != some 10 then
      let r := if p.eof then r else r.error
      let (r, events) := r.finishFile p.eof p
      (r, .read .history :: events)
    else if !validLogRecord text then
      let (r, events) := r.error.finishFile false p
      (r, .read .history :: events)
    else
      match p.told with
      | none =>
        let (r, events) := r.error.finishFile false p
        (r, .read .history :: events)
      | some good => ({ r with good, rows := r.rows + 1 }, [.read .history])

def pass (r : HistoryRecovery) (p : RecoveryPass) : HistoryRecovery × List CardEvent :=
  if r.input then r.nextLine p else r.nextFile p

/-- `step`: at most one pass for each element, while the reader is active. -/
def step : HistoryRecovery → List RecoveryPass → HistoryRecovery × List CardEvent
  | r, [] => (r, [])
  | r, p :: passes =>
    if r.active then
      let (r, events) := r.pass p
      let (r, more) := step r passes
      (r, events ++ more)
    else (r, [])

end HistoryRecovery

end Hound
