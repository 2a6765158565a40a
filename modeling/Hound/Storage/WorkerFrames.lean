import Hound.Storage.Worker

/-!
# Frames of the storage task

What the operations of the worker leave alone: most of them neither touch the
deferred backup nor the counter of the exports, and none takes a failure of the
card back.
-/

namespace Hound

namespace Worker

open Logged HistoryExport

/-- The fields that say when a manual backup is counted. -/
structure Backups where
  deferred : Option State
  manual : Bool
  initialized : Bool
  recovery : HistoryRecovery
  asleep : Bool
  manualBackups : UInt32

def backups (w : Worker) : Backups :=
  ⟨w.deferred, w.manual, w.initialized, w.recovery, w.asleep, w.health.manualBackups⟩

/-- The fields that say whether an export is refused, and what the last one wrote. -/
structure Exports where
  mounted : Bool
  ejected : Bool
  readOnly : Bool
  exports : UInt32
  exportRows : UInt32

def exported (w : Worker) : Exports :=
  ⟨w.health.mounted, w.health.ejected, w.health.readOnly, w.health.exports, w.health.exportRows⟩

structure Still (w w' : Worker) : Prop where
  backups : w'.backups = w.backups
  exported : w'.exported = w.exported
  failed : w.health.failed = true → w'.health.failed = true

theorem Still.refl (w : Worker) : Still w w := ⟨rfl, rfl, id⟩

theorem Still.trans {w w' w'' : Worker} (h : Still w w') (h' : Still w' w'') : Still w w'' :=
  ⟨h'.backups.trans h.backups, h'.exported.trans h.exported, fun hw => h'.failed (h.failed hw)⟩

/-- `trans` with the later step first. -/
theorem Still.since {w w' w'' : Worker} (h' : Still w' w'') (h : Still w w') : Still w w'' :=
  h.trans h'

section Fields

variable {w w' : Worker}

theorem Still.deferred (h : Still w w') : w'.deferred = w.deferred := congrArg Backups.deferred h.backups

theorem Still.manual (h : Still w w') : w'.manual = w.manual := congrArg Backups.manual h.backups

theorem Still.recovery (h : Still w w') : w'.recovery = w.recovery := congrArg Backups.recovery h.backups

theorem Still.asleep (h : Still w w') : w'.asleep = w.asleep := congrArg Backups.asleep h.backups

theorem Still.manualBackups (h : Still w w') : w'.health.manualBackups = w.health.manualBackups :=
  congrArg Backups.manualBackups h.backups

end Fields

variable {s : Firmware}

theorem failing_still (w : Worker) : Still w w.failing := ⟨rfl, rfl, fun _ => rfl⟩

/-! ## The log and the card -/

theorem flush_still (w : Worker) (a : FlushAnswers) : Still w (w.flush a).value.2 := by
  unfold flush
  split
  · exact .refl w
  · cases a.flushed && a.synced with
    | true => exact ⟨rfl, rfl, id⟩
    | false => exact ⟨rfl, rfl, fun _ => rfl⟩

theorem openFile_still (session : Bytes) (w : Worker) (opened : Bool) :
    Still w (w.openFile session opened).value.2 := by
  cases opened with
  | false => exact ⟨rfl, rfl, fun _ => rfl⟩
  | true => exact ⟨rfl, rfl, id⟩

theorem spaceStatus_still (w : Worker) (space : Option Space) : Still w (w.spaceStatus space).value := by
  unfold spaceStatus
  split
  · exact .refl w
  · cases space with
    | none => exact .refl w
    | some space => exact ⟨rfl, rfl, id⟩

theorem dropFile_still (w : Worker) (closed : Bool) : Still w (w.dropFile closed).value :=
  ⟨rfl, rfl, id⟩

/-! ## Ignore lists -/

theorem backupStatus_still (w : Worker) (status : IgnoreBackupStatus) :
    Still w (w.backupStatus status) :=
  ⟨rfl, rfl, id⟩

theorem writeBackup_still (w : Worker) (state : State) (digest : Digest) (a : BackupAnswers) :
    Still w (w.writeBackup s state digest a).value := by
  unfold writeBackup
  dsimp only
  split
  · exact backupStatus_still w .Failed
  · simp only [value_bind]
    split
    · exact ⟨rfl, rfl, id⟩
    · exact ⟨rfl, rfl, id⟩

theorem backupIgnores_still (w : Worker) (state : State) (force : Bool) (a : BackupAnswers) :
    Still w (w.backupIgnores s state force a).value := by
  unfold backupIgnores
  split
  · exact backupStatus_still w .NoCard
  split
  · exact backupStatus_still w .Ejected
  split
  · exact backupStatus_still w .ReadOnly
  split
  · exact backupStatus_still w .Failed
  split
  · exact backupStatus_still w .Failed
  · split
    · exact backupStatus_still w .Saved
    · exact writeBackup_still w state _ a

/-! ## Records -/

theorem rotate_still (w : Worker) (a : Answers) : Still w (w.rotate s a).value.2 := by
  have hflush := flush_still w a.flush
  refine (openFile_still s.id _ a.opened).since (hflush.trans ?_)
  exact ⟨rfl, rfl, id⟩

theorem append_still (w : Worker) (line : Bytes) (a : Answers) : Still w (w.append line a).value := by
  unfold append
  simp only [value_bind]
  split
  · exact failing_still w
  · split
    · exact (flush_still _ a.full).since ⟨rfl, rfl, id⟩
    · exact ⟨rfl, rfl, id⟩

theorem record_still (w : Worker) (r : Record) (a : Answers) : Still w (w.record s r a).value := by
  unfold record
  split
  · exact .refl w
  · rename_i line _
    split
    · have hrotate := rotate_still (s := s) w a
      simp only [value_bind]
      split
      · exact hrotate.trans (append_still _ line a)
      · exact hrotate
    · exact append_still w line a

/-! ## Clearing and diagnostics -/

theorem restart_still (w : Worker) (ok opened : Bool) : Still w (w.restart s ok opened).value := by
  unfold restart
  split
  · exact failing_still w
  · have hopen := openFile_still s.id { w with rotation := 0 } opened
    exact Still.trans ⟨hopen.backups, hopen.exported, hopen.failed⟩ ⟨rfl, rfl, id⟩

theorem clear_still (w : Worker) (a : Answers) : Still w (w.clear s a).value := by
  unfold clear
  split
  · exact .refl w
  · have hflush := flush_still w a.flush
    have hdrop := dropFile_still (w.flush a.flush).value.2 a.closed
    refine (spaceStatus_still _ a.space).since (Still.since ?_ (hflush.trans hdrop))
    exact restart_still _ _ a.opened

theorem diagnostics_still (w : Worker) (a : Answers) : Still w (w.diagnostics a).value := by
  unfold diagnostics
  split
  · simp only [value_bind]
    split
    · exact ⟨rfl, rfl, id⟩
    · exact .refl w
  · exact .refl w

/-! ## The loop -/

theorem openFirst_still (w : Worker) (opened : Bool) : Still w (w.openFirst s opened).value := by
  unfold openFirst
  split
  · exact openFile_still s.id w opened
  · exact .refl w

theorem idle_still (w : Worker) (t : Turn) : Still w (w.idle t).value := by
  unfold idle
  split
  · exact (spaceStatus_still _ t.space).since (flush_still w t.flush)
  · exact .refl w

end Worker

end Hound
