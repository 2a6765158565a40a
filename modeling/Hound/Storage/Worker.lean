import Hound.Lib.Runs
import Hound.Storage.HistoryExport
import Hound.Storage.IgnoreBackup

/-!
# The storage task

`task` of `storage.cpp` and the functions it calls: the loop that checks the
history, takes a message, handles it and flushes the log. The worker owns the
card. What each call reports is data of the iteration it is made in; what is
done to the card is logged. `persist` writes flash and not the card, so only its
result appears here.
-/

namespace Hound

inductive IgnoreBackupStatus where
  | Waiting
  | Checking
  | Unavailable
  | Saved
  | NoCard
  | Ejected
  | ReadOnly
  | Failed
  | InternalError
  deriving DecidableEq

/-- The fields of `Health` that the task writes, its stack size apart. -/
structure Health where
  mounted : Bool := false
  failed : Bool := false
  ejected : Bool := false
  readOnly : Bool := false
  sleepFailed : Bool := false
  ejectFailed : Bool := false
  checking : Bool := true
  checkedRows : UInt32 := 0
  checkedFiles : UInt32 := 0
  manualBackups : UInt32 := 0
  ignoreBackup : IgnoreBackupStatus := .Checking
  ignoreBackupCount : UInt32 := 0
  writes : UInt32 := 0
  errors : UInt32 := 0
  exports : UInt32 := 0
  saves : UInt32 := 0
  saveErrors : UInt32 := 0
  exportRows : UInt32 := 0
  clears : UInt32 := 0
  freeBytes : UInt64 := 0
  totalBytes : UInt64 := 0

/-- `health.failed = true; ++health.errors` -/
def Health.failing (h : Health) : Health := { h with failed := true, errors := h.errors + 1 }

structure Record where
  detection : Detection
  token : Bytes
  research : Bool
  region : UInt8

structure Firmware where
  pack : Vector UInt8 6
  id : Bytes
  hmac : Hmac
  sha256 : Bytes → Option Digest

/-- A snapshot slot stands for the State it holds, and the deferred backup for
the State of its slot. `slots` are the ignore lists on the card, by the start of
their names. -/
structure Worker where
  health : Health := {}
  rotation : UInt32 := 0
  filename : Bytes := []
  file : Bool := false
  size : Nat := 0
  pending : Nat := 0
  lastFlush : UInt64 := 0
  recovery : HistoryRecovery := {}
  deferred : Option State := none
  manual : Bool := false
  initialized : Bool := false
  recoveryErrors : UInt32 := 0
  /-- `has_ignore_backup` and `backed_up_digest`. -/
  backedUp : Option Digest := none
  slots : Bytes → IgnoreBackup.Card := fun _ => IgnoreBackup.blank
  /-- `board::sleep` was called. -/
  asleep : Bool := false

namespace Worker

open HistoryExport

inductive Message where
  | Record (record : Record)
  | Save (state : State)
  | BackupIgnores (state : State)
  | Export
  | Clear
  | Sleep (state : State)
  | Eject
  | Diagnostics (text : Bytes)
  | Sound

/-! ## Answers -/

/-- `fflush` and `fsync` of `flush`, and its clock in ms. -/
structure FlushAnswers where
  flushed : Bool := true
  synced : Bool := true
  time : UInt64 := 0

/-- What `f_getfree` fills in. -/
structure Space where
  free : UInt64
  clusterSize : UInt64
  fatEntries : UInt64

structure BackupAnswers where
  reads : IgnoreBackup.Slot → IgnoreBackup.ReadFault := IgnoreBackup.noFaults
  write : IgnoreBackup.WriteFault := {}

/-- What the calls made for one message report. -/
structure Answers where
  persisted : Bool := true
  backup : BackupAnswers := {}
  flush : FlushAnswers := {}
  /-- `fclose` of the log at a rotation, a clear or a sleep. -/
  closed : Bool := true
  opened : Bool := true
  wrote : Bool := true
  /-- The flush after ten records. -/
  full : FlushAnswers := {}
  exportKey : Bytes := []
  exporting : ExportAnswers := {}
  space : Option Space := none
  directory : Bool := true
  /-- The directory entries of a clear, and whether they could be unlinked. -/
  entries : List (Bytes × Bool) := []
  directoryClosed : Bool := true
  inputClosed : Bool := true
  recoveryClosed : Bool := true
  close : FinishAnswers := {}
  crash : TextAnswers := {}

/-- One iteration of the loop. -/
structure Turn where
  passes : List RecoveryPass := []
  opened : Bool := true
  completed : BackupAnswers := {}
  message : Option Message := none
  answers : Answers := {}
  /-- `esp_timer_get_time() / 1000` at the end of the iteration. -/
  clock : UInt64 := 0
  flush : FlushAnswers := {}
  space : Option Space := none

/-! ## The log and the card -/

def failing (w : Worker) : Worker := { w with health := w.health.failing }

def flush (w : Worker) (a : FlushAnswers) : WorkerIo (Bool × Worker) :=
  if !w.file then pure (true, w)
  else do
    Logged.tell (.card (.flushed .log a.flushed) ::
      if a.flushed then [.card (.synced .log a.synced)] else [])
    let ok := a.flushed && a.synced
    let w := if ok then w else w.failing
    pure (ok, { w with pending := 0, lastFlush := a.time })

/-- `%03u` -/
def threeDigits (n : Nat) : Bytes :=
  let digits := Decimal.natural n
  List.replicate (3 - digits.length) 48 ++ digits

def openFile (id : Bytes) (w : Worker) (opened : Bool) : WorkerIo (Bool × Worker) := do
  let filename := snprintf 160 (ascii "/sd/SURVSNIFF/LOGS/S-" ++
    (id ++ (ascii "-" ++ (threeDigits w.rotation.toNat ++ ascii ".JSONL"))))
  Logged.tell [.card (.opened .log opened)]
  if opened then pure (true, { w with filename, file := true, size := 0 })
  else pure (false, { w.failing with filename, file := false })

def spaceStatus (w : Worker) (space : Option Space) : WorkerIo Worker :=
  if !w.health.mounted || w.health.ejected then pure w
  else do
    Logged.tell [.card .queriedSpace]
    match space with
    | none => pure w
    | some s =>
      pure { w with
        health.freeBytes := s.free * s.clusterSize * 512
        health.totalBytes := (s.fatEntries - 2) * s.clusterSize * 512 }

def exportRows (s : Firmware) (w : Worker) (a : Answers) : WorkerIo Worker :=
  if !w.health.mounted || w.health.ejected || w.health.readOnly || w.health.failed then pure w
  else do
    let (flushed, w) ← w.flush a.flush
    if !flushed then pure w
    else do
      let (ok, file, rows) ← exportHistoryFiles s.hmac a.exportKey w.file a.exporting
      let w := { w with file }
      if ok then pure { w with health.exportRows := rows, health.exports := w.health.exports + 1 }
      else pure w.failing

/-! ## Ignore lists -/

def ignoreBackupId (hmac : Hmac) (key : Bytes) : Option Bytes :=
  if !IgnoreBackup.keyOk key then none
  else (hmac key (ascii "HOUND-IGNORE-ID")).map fun mac =>
    (mac.toList.take 8).flatMap fun b => [upperHex (b.toNat / 16), upperHex (b.toNat % 16)]

/-- What `read_slot` does to the card. -/
def readSlotEvents (base : Bytes) (slot : IgnoreBackup.Slot) (fault : IgnoreBackup.ReadFault)
    (file : Option Bytes) : List CardEvent :=
  if (IgnoreBackup.path base slot).isNone then []
  else if !fault.opened || file.isNone then [.opened .backup false]
  else [.opened .backup true, .read .backup, .closed .backup fault.closed]

/-- What `detail::backup_ignores` does to the card. -/
def backupEvents (hmac : Hmac) (key base : Bytes) (a : BackupAnswers) (list : IgnoreList)
    (card : IgnoreBackup.Card) : List CardEvent :=
  if !IgnoreBackup.keyOk key || !validIgnores list then []
  else
    readSlotEvents base 0 (a.reads 0) (card 0) ++ (readSlotEvents base 1 (a.reads 1) (card 1) ++
      match IgnoreBackup.prepare hmac key base a.reads list card with
      | .error _ => []
      | .ok _ =>
        if !a.write.opened then [.opened .backup false]
        else [.opened .backup true, .wrote .backup a.write.wrote, .flushed .backup a.write.flushed,
          .synced .backup a.write.synced, .closed .backup a.write.closed])

def ignoredCount (list : IgnoreList) : UInt32 :=
  UInt32.ofNat (list.toList.countP fun entry => entry.hash != 0)

def backupStatus (w : Worker) (status : IgnoreBackupStatus) : Worker :=
  { w with health.ignoreBackup := status }

/-- `backup_ignores` of the worker, past its checks of the card. -/
def writeBackup (s : Firmware) (w : Worker) (state : State) (digest : Digest) (a : BackupAnswers) :
    WorkerIo Worker :=
  let key := state.mealKey.toList
  let list := state.companion.ignored
  match ignoreBackupId s.hmac key with
  | none => pure (w.backupStatus .Failed)
  | some id => do
    let base := snprintf 80 (ascii "/sd/SURVSNIFF/IGNORES/" ++ id)
    Logged.tell ((backupEvents s.hmac key base a list (w.slots base)).map .card)
    let (result, card) := IgnoreBackup.backupIgnores s.hmac key base a.reads a.write list (w.slots base)
    let w := { w with slots := Function.update w.slots base card }
    if result == .Failed then pure (w.backupStatus .Failed)
    else pure { w.backupStatus .Saved with
      backedUp := some digest
      health.ignoreBackupCount := ignoredCount list }

def backupIgnores (s : Firmware) (w : Worker) (state : State) (force : Bool) (a : BackupAnswers) :
    WorkerIo Worker :=
  if !w.health.mounted then pure (w.backupStatus .NoCard)
  else if w.health.ejected then pure (w.backupStatus .Ejected)
  else if w.health.readOnly then pure (w.backupStatus .ReadOnly)
  else if w.health.failed then pure (w.backupStatus .Failed)
  else
    match s.sha256 ((Layout.array 64 Layouts.ignored).write state.companion.ignored) with
    | none => pure (w.backupStatus .Failed)
    | some digest =>
      if !force && w.health.ignoreBackup == .Saved && w.backedUp == some digest then
        pure (w.backupStatus .Saved)
      else w.writeBackup s state digest a

def finishBackup (s : Firmware) (w : Worker) (state : State) (manual : Bool) (a : BackupAnswers) :
    WorkerIo Worker := do
  let w ← w.backupIgnores s state manual a
  pure (if manual then { w with health.manualBackups := w.health.manualBackups + 1 } else w)

/-! ## Messages -/

def save (s : Firmware) (w : Worker) (state : State) (manual : Bool) (a : Answers) : WorkerIo Worker :=
  if !a.persisted then
    pure { w with
      health.saveErrors := w.health.saveErrors + 1
      health.ignoreBackup := .InternalError
      health.failed := true
      health.manualBackups := if manual then w.health.manualBackups + 1 else w.health.manualBackups }
  else
    let w := { w with health.saves := w.health.saves + 1 }
    if w.recovery.active then
      pure { w with
        deferred := some state
        manual := w.manual || manual
        health.ignoreBackup := .Checking }
    else w.finishBackup s state manual a.backup

def maxFile : Nat := 4 * 1024 * 1024

def rotate (s : Firmware) (w : Worker) (a : Answers) : WorkerIo (Bool × Worker) := do
  let (_, w) ← w.flush a.flush
  Logged.tell [.closing (.closed .log a.closed)]
  { w with file := false, rotation := w.rotation + 1 }.openFile s.id a.opened

def append (w : Worker) (line : Bytes) (a : Answers) : WorkerIo Worker := do
  Logged.tell [.card (.wrote .log a.wrote)]
  if !a.wrote then pure w.failing
  else
    let w := { w with
      size := w.size + line.length
      pending := w.pending + 1
      health.writes := w.health.writes + 1 }
    if 10 ≤ w.pending then do
      let (_, w) ← w.flush a.full
      pure w
    else pure w

def recordLine (s : Firmware) (r : Record) : Bytes :=
  writeRecord s.pack r.detection s.id r.token r.research 2048 r.region

/-- The line of a `Record` that the worker writes, if it does write one. -/
def accepted (s : Firmware) (w : Worker) (r : Record) : Option Bytes :=
  if r.detection.demo then none
  else if !w.file || w.health.failed || w.health.ejected || w.health.readOnly then none
  else if recordLine s r == [] then none
  else some (recordLine s r)

def record (s : Firmware) (w : Worker) (r : Record) (a : Answers) : WorkerIo Worker :=
  match w.accepted s r with
  | none => pure w
  | some line =>
    if maxFile < w.size + line.length then do
      let (opened, w) ← w.rotate s a
      if opened then w.append line a else pure w
    else w.append line a

/-- The loop over the log directory: what is logged and whether all went well. -/
def clearFiles : List (Bytes × Bool) → WorkerIo Bool
  | [] => do
    Logged.tell [.card .readDir]
    pure true
  | (name, unlinked) :: entries => do
    Logged.tell [.card .readDir]
    if !logName name then clearFiles entries
    else do
      Logged.tell [.card (.unlinked unlinked)]
      let ok ← clearFiles entries
      pure (unlinked && ok)

/-- Close the log if it is open, and ignore how that went. -/
def dropFile (w : Worker) (closed : Bool) : WorkerIo Worker := do
  Logged.tell (if w.file then [.closing (.closed .log closed)] else [])
  pure { w with file := false }

def clearDirectory (a : Answers) : WorkerIo Bool := do
  Logged.tell [.card (.openedDir a.directory)]
  if !a.directory then pure false
  else do
    let ok ← clearFiles a.entries
    Logged.tell [.card (.closedDir a.directoryClosed)]
    pure ok

def restart (s : Firmware) (w : Worker) (ok opened : Bool) : WorkerIo Worker :=
  if !ok then pure w.failing
  else do
    let (_, w) ← { w with rotation := 0 }.openFile s.id opened
    pure { w with health.clears := w.health.clears + 1 }

def clear (s : Firmware) (w : Worker) (a : Answers) : WorkerIo Worker :=
  if w.recovery.active || (!w.health.mounted || w.health.ejected || w.health.readOnly) then pure w
  else do
    let (_, w) ← w.flush a.flush
    let w ← w.dropFile a.closed
    let ok ← clearDirectory a
    let w ← w.restart s ok a.opened
    w.spaceStatus a.space

/-- `recovery.cancel()`, after which the worker counts as initialized. -/
def cancelRecovery (w : Worker) (a : Answers) : WorkerIo Worker := do
  let (recovery, events) := w.recovery.cancel a.inputClosed a.recoveryClosed
  Logged.tell (events.map .checking)
  pure { w with recovery, initialized := true, health.checking := false }

def sleep (s : Firmware) (w : Worker) (state : State) (a : Answers) : WorkerIo Worker := do
  let wasChecking := w.recovery.active
  let w ← w.cancelRecovery a
  let w := { w with deferred := none, manual := false }
  let ok := a.persisted && w.recovery.cancelled
  let w ← (if ok && !wasChecking then w.backupIgnores s state false a.backup else pure w)
  let (flushed, w) ← (if ok then w.flush a.flush else pure (false, w))
  if flushed then do
    let w ← w.dropFile a.closed
    pure { w with asleep := true }
  else pure { w with health.sleepFailed := true }

def eject (w : Worker) (a : Answers) : WorkerIo Worker :=
  if w.health.ejected then pure w
  else do
    let w ← w.cancelRecovery a
    let (closed, file) ← closeLog w.file a.close
    let ok := closed && w.recovery.cancelled
    let cancelledBackup := w.manual
    let health := if ok then w.health else w.health.failing
    let w := { w with file, deferred := none, manual := false, pending := 0, health }
    Logged.tell [.ejected !ok]
    pure { w with
      health.ejectFailed := !ok
      health.ignoreBackup := .Ejected
      health.ejected := true
      health.manualBackups := if cancelledBackup then w.health.manualBackups + 1 else w.health.manualBackups }

def diagnostics (w : Worker) (a : Answers) : WorkerIo Worker :=
  if !w.recovery.active && (w.health.mounted && (!w.health.ejected && !w.health.readOnly)) then do
    Logged.tell [.card (.opened .crash a.crash.opened)]
    if !a.crash.opened then pure { w with health.errors := w.health.errors + 1 }
    else do
      Logged.tell [.card (.wrote .crash a.crash.wrote), .card (.closed .crash a.crash.finish.closed)]
      pure w
  else pure w

def handle (s : Firmware) (w : Worker) (m : Message) (a : Answers) : WorkerIo Worker :=
  match m with
  | .Record r => w.record s r a
  | .Save state => w.save s state false a
  | .BackupIgnores state => w.save s state true a
  | .Export => do
    let w ← w.exportRows s a
    w.spaceStatus a.space
  | .Clear => w.clear s a
  | .Sleep state => w.sleep s state a
  | .Eject => w.eject a
  | .Diagnostics _ => w.diagnostics a
  | .Sound => pure w

/-! ## The loop -/

def check (w : Worker) (passes : List RecoveryPass) : WorkerIo Worker := do
  let (recovery, events) := w.recovery.step (passes.take 16)
  Logged.tell (events.map .checking)
  pure { w with
    recovery
    recoveryErrors := recovery.errors
    health.checkedRows := recovery.rows
    health.checkedFiles := recovery.files
    health.readOnly := recovery.readOnly
    health.errors := w.health.errors + (recovery.errors - w.recoveryErrors) }

/-- Open the log after the recovery, if the card can be written. -/
def openFirst (s : Firmware) (w : Worker) (opened : Bool) : WorkerIo Worker :=
  if w.health.mounted && (!w.health.failed && (!w.health.readOnly && !w.health.ejected)) then do
    let (_, w) ← w.openFile s.id opened
    pure w
  else pure w

def backupDeferred (s : Firmware) (w : Worker) (a : BackupAnswers) : WorkerIo Worker :=
  match w.deferred with
  | none => pure w
  | some state => do
    let w ← w.finishBackup s state w.manual a
    pure { w with deferred := none, manual := false }

/-- The first iteration in which the recovery is over. -/
def complete (s : Firmware) (w : Worker) (opened : Bool) (a : BackupAnswers) : WorkerIo Worker :=
  if w.initialized || w.recovery.active then pure w
  else do
    let w ← { w with initialized := true, health.checking := false }.openFirst s opened
    w.backupDeferred s a

def idle (w : Worker) (t : Turn) : WorkerIo Worker :=
  if w.pending != 0 && decide (5000 ≤ t.clock - w.lastFlush) then do
    let (_, w) ← w.flush t.flush
    w.spaceStatus t.space
  else pure w

/-- The part of an iteration before its message. -/
def prepare (s : Firmware) (w : Worker) (t : Turn) : WorkerIo Worker := do
  let w ← w.check t.passes
  w.complete s t.opened t.completed

def receive (s : Firmware) (w : Worker) (t : Turn) : WorkerIo Worker :=
  match t.message with
  | none => pure w
  | some m => w.handle s m t.answers

/-- An iteration. A board that sleeps starts anew when it wakes. -/
def iterate (s : Firmware) (w : Worker) (t : Turn) : WorkerIo Worker :=
  if w.asleep then pure w
  else do
    let w ← w.prepare s t
    let w ← w.receive s t
    if w.asleep then pure w else w.idle t

/-- What `mount_sd`, the calls of `mkdir` and `opendir` report. -/
structure BootAnswers where
  mounted : Bool := true
  directories : List Bool := []
  opened : Bool := true
  slots : Bytes → IgnoreBackup.Card := fun _ => IgnoreBackup.blank

/-- `mkdir_ok` of the five directories, up to the first that fails; one without
an answer is there. -/
def makeDirectories : Nat → List Bool → WorkerIo Bool
  | 0, _ => pure true
  | n + 1, answers => do
    let ok := answers.headD true
    Logged.tell [.card (.madeDir ok)]
    if ok then makeDirectories n answers.tail else pure false

/-- The task before its loop. -/
def boot (a : BootAnswers) : WorkerIo Worker :=
  let w : Worker := { slots := a.slots, health.mounted := a.mounted }
  if !a.mounted then pure w
  else do
    let directories ← makeDirectories 5 a.directories
    if directories then do
      let (recovery, events) := w.recovery.begin (ascii "/sd/SURVSNIFF/LOGS") a.opened
      Logged.tell (events.map .checking)
      pure { w with recovery }
    else pure { w with health.failed := true }

def next (s : Firmware) (w : WorkerIo Worker) (t : Turn) : WorkerIo Worker := w >>= fun w => w.iterate s t

def run (s : Firmware) (a : BootAnswers) (turns : List Turn) : WorkerIo Worker :=
  Runs.run (next s) (boot a) turns

end Worker

end Hound
