import Hound.Lib.Logged
import Hound.Lib.Slots
import Hound.Records.Export
import Hound.Storage.HistoryRecovery

/-!
# Exporting the history

`history_export.cpp`: the log is closed, every line of every history file is
exported, a manifest completes the export, and the log is opened again. What
the stdio calls report is data, and what they do to the card is logged.
-/

namespace Hound

namespace HistoryExport

abbrev CardIo := Logged CardEvent

structure FinishAnswers where
  flushed : Bool := true
  synced : Bool := true
  closed : Bool := true
  deriving DecidableEq

def finish (file : CardFile) (a : FinishAnswers) : CardIo Bool := do
  Logged.tell [.flushed file a.flushed, .synced file a.synced, .closed file a.closed]
  pure (a.closed && (a.synced && a.flushed))

/-- A line `fgets` put in the buffer, and whether its export could be written. -/
structure LineAnswers where
  line : Bytes
  wrote : Bool := true

/-- One pass of the loop over the directory. After its last line `fgets` returns
null. -/
structure FileAnswers where
  entry : Readdir
  opened : Bool := true
  lines : List LineAnswers := []
  streamError : Bool := false
  closed : Bool := true

structure TextAnswers where
  opened : Bool := true
  wrote : Bool := true
  finish : FinishAnswers := {}

/-- `hash_file` on one file, and the line of the manifest. -/
structure HashAnswers where
  opened : Bool := true
  reads : Nat := 1
  closed : Bool := true
  hashed : Bool := true
  wrote : Bool := true

structure WriteAnswers where
  opened : Bool := true
  logs : Bool := true
  files : List FileAnswers := []
  logsClosed : Bool := true
  finish : FinishAnswers := {}
  readme : TextAnswers := {}
  summary : TextAnswers := {}
  manifest : Bool := true
  hashes : Fin 3 → HashAnswers := fun _ => {}
  manifestFinish : FinishAnswers := {}

structure ExportAnswers where
  close : FinishAnswers := {}
  created : Bool := true
  write : WriteAnswers := {}
  reopened : Bool := true
  sought : Bool := true
  reclosed : Bool := true
  unlinked : Bool := true

/-! ## The rows -/

structure Progress where
  ok : Bool := true
  files : Nat := 0
  rows : UInt32 := 0

/-- `while (ok && fgets(line.data(), line.size(), input))` -/
def exportLines (hmac : Hmac) (key : Bytes) (p : Progress) : List LineAnswers → CardIo Progress
  | [] => do
    Logged.tell (if p.ok then [.read .history] else [])
    pure p
  | a :: lines =>
    if !p.ok then pure p
    else do
      Logged.tell [.read .history]
      let text := cString a.line
      if text.getLast? != some 10 then pure { p with ok := false }
      else
        let exported := exportLogRecord hmac text key 2048
        if exported == [] then exportLines hmac key { p with ok := false } lines
        else do
          Logged.tell [.wrote .export a.wrote]
          exportLines hmac key
            { p with ok := a.wrote, rows := if a.wrote then p.rows + 1 else p.rows } lines

def exportFile (hmac : Hmac) (key : Bytes) (p : Progress) (a : FileAnswers) : CardIo Progress := do
  Logged.tell [.opened .history a.opened]
  if !a.opened then pure { p with ok := false }
  else
    let p ← exportLines hmac key p a.lines
    Logged.tell [.closed .history a.closed]
    pure { p with ok := a.closed && (p.ok && !a.streamError) }

/-- `while (ok)`, after whose last answer the directory has no more entries. -/
def exportFiles (hmac : Hmac) (key : Bytes) (p : Progress) : List FileAnswers → CardIo Progress
  | [] => do
    Logged.tell (if p.ok then [.readDir] else [])
    pure p
  | a :: files =>
    if !p.ok then pure p
    else do
      Logged.tell [.readDir]
      match a.entry with
      | .done => pure p
      | .failed => pure { p with ok := false }
      | .entry name =>
        if !logName name then exportFiles hmac key p files
        else if 4096 < p.files + 1 then pure { p with ok := false, files := p.files + 1 }
        else do
          let p ← exportFile hmac key { p with files := p.files + 1 } a
          exportFiles hmac key p files

/-! ## The directory of an export -/

def writeText (a : TextAnswers) : CardIo Bool := do
  Logged.tell [.opened .export a.opened]
  if !a.opened then pure false
  else
    Logged.tell [.wrote .export a.wrote]
    let finished ← finish .export a.finish
    pure (finished && a.wrote)

/-- `hash_file`. Closing its reader is not checked. -/
def hashFile (a : HashAnswers) : CardIo Bool := do
  Logged.tell [.opened .export a.opened]
  if !a.opened then pure false
  else
    Logged.tell (List.replicate a.reads (.read .export) ++ [.closed .export a.closed])
    pure a.hashed

def manifestLines (ok : Bool) : List HashAnswers → CardIo Bool
  | [] => pure ok
  | a :: names =>
    if !ok then pure false
    else do
      let hashed ← hashFile a
      if !hashed then pure false
      else do
        Logged.tell [.wrote .export a.wrote]
        manifestLines a.wrote names

def writeManifest (ok : Bool) (a : WriteAnswers) : CardIo Bool :=
  if !ok then pure false
  else do
    Logged.tell [.opened .export a.manifest]
    if !a.manifest then pure false
    else
      let ok ← manifestLines true [a.hashes 0, a.hashes 1, a.hashes 2]
      let finished ← finish .export a.manifestFinish
      pure (finished && ok)

/-- `write_export`, with the number of rows. -/
def writeExport (hmac : Hmac) (key : Bytes) (a : WriteAnswers) : CardIo (Bool × UInt32) := do
  Logged.tell [.opened .export a.opened, .openedDir a.logs]
  let p ← (if a.logs then exportFiles hmac key { ok := a.opened } a.files else pure { ok := false })
  Logged.tell (if a.logs then [.closedDir a.logsClosed] else [])
  let ok := p.ok && (!a.logs || a.logsClosed)
  let finished ← (if a.opened then finish .export a.finish else pure true)
  let readme ← writeText a.readme
  let summary ← writeText a.summary
  let ok ← writeManifest (summary && (readme && (finished && ok))) a
  pure (ok, p.rows)

end HistoryExport

/-! ## The writer of the log -/

/-- What the storage task does, with what it does it for. -/
inductive WorkerEvent where
  | checking (event : CardEvent)
  | closing (event : CardEvent)
  | card (event : CardEvent)
  /-- `health.ejected` is set, after `health.eject_failed`. -/
  | ejected (failed : Bool)
  deriving DecidableEq

abbrev WorkerIo := Logged WorkerEvent

namespace HistoryExport

/-- `close_log`: its result and the writer. -/
def closeLog (writer : Bool) (a : FinishAnswers) : WorkerIo (Bool × Bool) :=
  if !writer then pure (true, false)
  else do
    let ok ← (finish .log a).relabel .closing
    pure (ok, false)

def reopen (a : ExportAnswers) : WorkerIo Bool := do
  Logged.tell [.card (.opened .log a.reopened)]
  if !a.reopened then pure false
  else do
    Logged.tell [.card (.sought .log a.sought)]
    if a.sought then pure true
    else do
      Logged.tell [.closing (.closed .log a.reclosed)]
      pure false

/-- `export_history_files`: its result, the writer and the number of rows. -/
def exportHistoryFiles (hmac : Hmac) (key : Bytes) (writer : Bool) (a : ExportAnswers) :
    WorkerIo (Bool × Bool × UInt32) :=
  if !writer then pure (false, false, 0)
  else do
    let (closed, _) ← closeLog writer a.close
    if !closed then pure (false, false, 0)
    else do
      Logged.tell [.card (.madeDir a.created)]
      let (written, rows) ←
        (if a.created then (writeExport hmac key a.write).relabel .card else pure (false, 0))
      let writer ← reopen a
      let ok := writer && written
      Logged.tell (if !ok && a.created then [.card (.unlinked a.unlinked)] else [])
      pure (ok, writer, rows)

end HistoryExport

end Hound
