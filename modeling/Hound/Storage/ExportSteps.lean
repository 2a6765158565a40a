import Hound.Storage.BackupAcks

/-!
# The signs of an export

The view is told of an export by a counter, a number of rows and the flags that bar
an export. The flags stay up, and only an export that goes through moves the counter.
-/

namespace Hound

/-! ## A recovery stays read-only -/

namespace HistoryRecovery

/-- Read-only before, read-only after. -/
def Sticky (r : HistoryRecovery) (after : HistoryRecovery × List CardEvent) : Prop :=
  r.readOnly = true → after.1.readOnly = true

theorem closeInput_sticky (r : HistoryRecovery) (closed : Bool) : Sticky r (r.closeInput closed) := by
  intro hr
  unfold closeInput
  split
  · cases closed with
    | true => exact hr
    | false => rfl
  · exact hr

theorem cancel_sticky (r : HistoryRecovery) (closed directoryClosed : Bool) :
    Sticky r (r.cancel closed directoryClosed) := by
  intro hr
  have hinput := closeInput_sticky r closed hr
  unfold cancel
  generalize r.closeInput closed = c at hinput
  dsimp only
  split
  · cases directoryClosed with
    | true => exact hinput
    | false => rfl
  · exact hinput

theorem repair_sticky (r : HistoryRecovery) (p : RecoveryPass) : Sticky r (r.repair p) := by
  intro hr
  unfold repair
  split
  · rfl
  · dsimp only
    refine closeInput_sticky _ p.reclosed ?_
    split
    · exact hr
    · rfl

theorem finishFile_sticky (r : HistoryRecovery) (partial' : Bool) (p : RecoveryPass) :
    Sticky r (r.finishFile partial' p) := by
  intro hr
  have hstart : (if p.streamError then r.error else r).readOnly = true := by
    split
    · rfl
    · exact hr
  unfold finishFile
  generalize (if p.streamError then r.error else r) = q at hstart
  have hclosed := closeInput_sticky q p.closed hstart
  dsimp only
  split
  · exact hclosed
  · exact repair_sticky _ p hclosed

theorem pass_sticky (r : HistoryRecovery) (p : RecoveryPass) : Sticky r (r.pass p) := by
  intro hr
  unfold pass
  split
  · unfold nextLine
    cases p.line with
    | none => exact finishFile_sticky r false p hr
    | some scratch =>
      dsimp only
      split
      · refine finishFile_sticky _ p.eof p ?_
        split
        · exact hr
        · rfl
      split
      · exact finishFile_sticky r.error false p rfl
      · cases p.told with
        | none => exact finishFile_sticky r.error false p rfl
        | some good => exact hr
  · unfold nextFile
    cases p.entry with
    | failed => exact cancel_sticky r.error p.closed p.directoryClosed rfl
    | done => exact cancel_sticky r p.closed p.directoryClosed hr
    | entry name =>
      dsimp only
      split
      · exact hr
      split
      · exact cancel_sticky _ p.closed p.directoryClosed rfl
      split
      · rfl
      split
      · rfl
      · exact hr

theorem step_sticky (r : HistoryRecovery) (passes : List RecoveryPass) : Sticky r (r.step passes) := by
  induction passes generalizing r with
  | nil => exact id
  | cons p passes ih =>
    intro hr
    unfold step
    split
    · exact ih _ (pass_sticky r p hr)
    · exact hr

end HistoryRecovery

/-! ## The storage task -/

/-- What `export_rows` refuses an export for. -/
def Health.barred (h : Health) : Bool := !h.mounted || h.ejected || h.readOnly || h.failed

namespace Worker

open HistoryExport

/-- The read-only flag is the recovery's. -/
def Marked (w : Worker) : Prop := w.health.readOnly = true → w.recovery.readOnly = true

/-- The flags stay up. -/
structure Bars (w w' : Worker) : Prop where
  barred : w.Marked → w.health.barred = true → w'.health.barred = true
  marked : w.Marked → w'.Marked

/-- The flags stay up, and no export goes through. -/
structure Onward (w w' : Worker) : Prop extends Bars w w' where
  exports : w'.health.exports = w.health.exports
  exportRows : w'.health.exportRows = w.health.exportRows

variable {w w' w'' : Worker} {s : Firmware}

theorem Bars.trans (h : Bars w w') (h' : Bars w' w'') : Bars w w'' :=
  ⟨fun hw hbarred => h'.barred (h.marked hw) (h.barred hw hbarred), fun hw => h'.marked (h.marked hw)⟩

namespace Onward

theorem refl (w : Worker) : Onward w w := ⟨⟨fun _ h => h, id⟩, rfl, rfl⟩

theorem trans (h : Onward w w') (h' : Onward w' w'') : Onward w w'' :=
  ⟨h.toBars.trans h'.toBars, h'.exports.trans h.exports, h'.exportRows.trans h.exportRows⟩

theorem still (h : Still w w') : Onward w w' := by
  have hmounted : w'.health.mounted = w.health.mounted := congrArg Exports.mounted h.exported
  have hejected : w'.health.ejected = w.health.ejected := congrArg Exports.ejected h.exported
  have hread : w'.health.readOnly = w.health.readOnly := congrArg Exports.readOnly h.exported
  refine ⟨⟨fun _ hbarred => ?_, fun hw hread' => ?_⟩, congrArg Exports.exports h.exported,
    congrArg Exports.exportRows h.exported⟩
  · unfold Health.barred at hbarred ⊢
    rw [hmounted, hejected, hread]
    cases hfailed : w.health.failed with
    | true => rw [h.failed hfailed, Bool.or_true]
    | false =>
      rw [hfailed, Bool.or_false] at hbarred
      rw [hbarred, Bool.true_or]
  · rw [h.recovery]
    exact hw (hread.symm.trans hread')

end Onward

theorem finishBackup_onward (w : Worker) (state : State) (manual : Bool) (a : BackupAnswers) :
    Onward w (w.finishBackup s state manual a).value := by
  have hbackup := Onward.still (backupIgnores_still (s := s) w state manual a)
  unfold finishBackup
  simp only [Logged.value_bind, Logged.value_pure]
  cases manual with
  | false => exact hbackup
  | true => exact hbackup.trans ⟨⟨fun _ h => h, id⟩, rfl, rfl⟩

theorem failed_onward (hexports : w'.health.exports = w.health.exports)
    (hrows : w'.health.exportRows = w.health.exportRows) (hread : w'.health.readOnly = w.health.readOnly)
    (hrecovery : w'.recovery = w.recovery) (hfailed : w'.health.failed = true) : Onward w w' := by
  refine ⟨⟨fun _ _ => ?_, fun hw hread' => ?_⟩, hexports, hrows⟩
  · unfold Health.barred
    rw [hfailed, Bool.or_true]
  · rw [hrecovery]
    exact hw (hread.symm.trans hread')

theorem save_onward (w : Worker) (state : State) (manual : Bool) (a : Answers) :
    Onward w (w.save s state manual a).value := by
  have hsaved : Onward w { w with health.saves := w.health.saves + 1 } := ⟨⟨fun _ h => h, id⟩, rfl, rfl⟩
  unfold save
  split
  · exact failed_onward rfl rfl rfl rfl rfl
  dsimp only
  split
  · exact hsaved.trans ⟨⟨fun _ h => h, id⟩, rfl, rfl⟩
  · exact hsaved.trans (finishBackup_onward _ state manual a.backup)

theorem cancelRecovery_onward (w : Worker) (a : Answers) : Onward w (w.cancelRecovery a).value :=
  ⟨⟨fun _ h => h, fun hw hread =>
    HistoryRecovery.cancel_sticky w.recovery a.inputClosed a.recoveryClosed (hw hread)⟩, rfl, rfl⟩

theorem sleep_onward (w : Worker) (state : State) (a : Answers) : Onward w (w.sleep s state a).value := by
  obtain ⟨flushed, w', hstill, hvalue, -⟩ := sleep_spec (s := s) w state a
  have hdrops : Onward w (w.undeferred a) := (cancelRecovery_onward w a).trans ⟨⟨fun _ h => h, id⟩, rfl, rfl⟩
  rw [hvalue]
  refine (hdrops.trans (.still hstill)).trans ?_
  cases flushed with
  | true => exact ⟨⟨fun _ h => h, id⟩, rfl, rfl⟩
  | false => exact ⟨⟨fun _ h => h, id⟩, rfl, rfl⟩

theorem eject_onward (w : Worker) (a : Answers) : Onward w (w.eject a).value := by
  have hends : ∀ (v : Worker) (ok file : Bool) (n : UInt32), Onward v { v with
      file, deferred := none, manual := false, pending := 0
      health := { (if ok then v.health else v.health.failing) with
        ejectFailed := !ok, ignoreBackup := .Ejected, ejected := true, manualBackups := n } } := by
    intro v ok file n
    have hbarred : ∀ h : Health, Health.barred { h with ejected := true } = true := fun h => by
      unfold Health.barred
      rw [Bool.or_true, Bool.true_or, Bool.true_or]
    cases ok with
    | true => exact ⟨⟨fun _ _ => hbarred _, id⟩, rfl, rfl⟩
    | false => exact ⟨⟨fun _ _ => hbarred _, id⟩, rfl, rfl⟩
  unfold eject
  split
  · exact .refl w
  · exact (cancelRecovery_onward w a).trans (hends _ _ _ _)

/-! ## The loop -/

theorem backupDeferred_onward (w : Worker) (a : BackupAnswers) : Onward w (w.backupDeferred s a).value := by
  unfold backupDeferred
  split
  · exact .refl w
  · exact (finishBackup_onward w _ _ a).trans ⟨⟨fun _ h => h, id⟩, rfl, rfl⟩

theorem prepare_onward (w : Worker) (t : Turn) : Onward w (w.prepare s t).value := by
  have hcheck : Onward w (w.check t.passes).value := by
    refine ⟨⟨fun hw hbarred => ?_, fun hw hread => hread⟩, rfl, rfl⟩
    have hsticky := HistoryRecovery.step_sticky w.recovery (t.passes.take 16)
    unfold Health.barred at hbarred ⊢
    change (!w.health.mounted || w.health.ejected || (w.recovery.step (t.passes.take 16)).1.readOnly ||
      w.health.failed) = true
    cases hread : w.health.readOnly with
    | true => rw [hsticky (hw hread), Bool.or_true, Bool.true_or]
    | false =>
      rw [hread, Bool.or_false] at hbarred
      rw [Bool.or_right_comm, hbarred, Bool.true_or]
  have hcomplete : ∀ v : Worker, Onward v (v.complete s t.opened t.completed).value := by
    intro v
    unfold complete
    split
    · exact .refl v
    have hbegins : Onward v { v with initialized := true, health.checking := false } := ⟨⟨fun _ h => h, id⟩, rfl, rfl⟩
    have hopens := hbegins.trans (.still (openFirst_still (s := s) _ t.opened))
    exact hopens.trans (backupDeferred_onward _ t.completed)
  exact hcheck.trans (hcomplete _)

theorem idle_onward (w : Worker) (t : Turn) : Onward w (w.idle t).value := .still (idle_still w t)

theorem handle_onward (w : Worker) {m : Message} (hm : m ≠ .Export) (a : Answers) :
    Onward w (w.handle s m a).value := by
  cases m with
  | Record r => exact .still (record_still w r a)
  | Save state => exact save_onward w state false a
  | BackupIgnores state => exact save_onward w state true a
  | Export => exact absurd rfl hm
  | Clear => exact .still (clear_still w a)
  | Sleep state => exact sleep_onward w state a
  | Eject => exact eject_onward w a
  | Diagnostics text => exact .still (diagnostics_still w a)
  | Sound => exact .refl w

/-! ## Exports -/

/-- The rows of the export, if it goes through. -/
def exportResult (s : Firmware) (w : Worker) (a : Answers) : Option UInt32 :=
  if w.health.barred then none
  else
    let (flushed, w) := (w.flush a.flush).value
    if !flushed then none
    else
      let (ok, _, rows) := (exportHistoryFiles s.hmac a.exportKey w.file a.exporting).value
      if ok then some rows else none

theorem flush_failed {a : FlushAnswers} (h : (w.flush a).value.1 = false) : (w.flush a).value.2.health.failed = true := by
  unfold flush at h ⊢
  split at h
  · exact absurd h Bool.noConfusion
  · rename_i hfile
    rw [if_neg hfile]
    simp only [Logged.value_bind, Logged.value_pure] at h ⊢
    rw [h]
    rfl

theorem exportRows_spec (w : Worker) (a : Answers) :
    Bars w (w.exportRows s a).value ∧
      match w.exportResult s a with
      | some rows => w.health.barred = false ∧ (w.exportRows s a).value.health.exports = w.health.exports + 1 ∧
          (w.exportRows s a).value.health.exportRows = rows
      | none => (w.exportRows s a).value.health.barred = true ∧
          (w.exportRows s a).value.health.exports = w.health.exports := by
  have hguard : (!w.health.mounted || w.health.ejected || w.health.readOnly || w.health.failed) = w.health.barred := rfl
  unfold exportRows exportResult
  rw [hguard]
  cases hbarred : w.health.barred with
  | true => exact ⟨(Onward.refl w).toBars, hbarred, rfl⟩
  | false =>
    have hfails : ∀ v : Worker, v.health.failed = true → v.health.barred = true := fun v hfailed => by
      unfold Health.barred
      rw [hfailed, Bool.or_true]
    have hflush := Onward.still (flush_still w a.flush)
    rw [if_neg Bool.false_ne_true, if_neg Bool.false_ne_true]
    simp only [Logged.value_bind]
    cases hflushed : (w.flush a.flush).value.1 with
    | false =>
      exact ⟨hflush.toBars, hfails _ (flush_failed hflushed), hflush.exports⟩
    | true =>
      generalize (w.flush a.flush).value.2 = v at hflush
      simp only [Bool.not_true, Bool.false_eq_true, if_false, Logged.value_bind]
      generalize exportHistoryFiles s.hmac a.exportKey v.file a.exporting = x
      obtain ⟨⟨ok, file, rows⟩, log⟩ := x
      cases ok with
      | false =>
        have hloses : ∀ file : Bool, Onward v ({ v with file } : Worker).failing := fun file =>
          failed_onward rfl rfl rfl rfl rfl
        exact ⟨hflush.toBars.trans (hloses file).toBars, hfails _ rfl, hflush.exports⟩
      | true =>
        have hcounts : Bars v { v with
            file, health.exportRows := rows, health.exports := v.health.exports + 1 } := ⟨fun _ h => h, id⟩
        exact ⟨hflush.toBars.trans hcounts, trivial, congrArg (· + 1) hflush.exports, rfl⟩

end Worker

end Hound
