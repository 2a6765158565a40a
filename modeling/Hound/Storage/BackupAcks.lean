import Hound.Storage.WorkerFrames
import Hound.Storage.WorkerSteps

/-!
# Manual backups

The button that backs the ignore list up, the request on its way to the worker
and the counter that answers it. The app and the worker take their steps in any
order; a worker's iteration is two of them, up to its queue and from there.
-/

namespace Hound

namespace Worker

open Logged HistoryExport

/-! ## The deferred backup -/

/-- A backup is deferred only while the recovery reads. -/
structure Held (w : Worker) : Prop where
  unheld : w.deferred = none → w.manual = false
  reading : w.deferred ≠ none → w.recovery.active = true
  settled : w.initialized = true → w.recovery.active = false

theorem Held.of_backups {w w' : Worker} (h : Held w) (heq : w'.backups = w.backups) : Held w' := by
  have hdeferred : w'.deferred = w.deferred := congrArg Backups.deferred heq
  have hmanual : w'.manual = w.manual := congrArg Backups.manual heq
  have hinitialized : w'.initialized = w.initialized := congrArg Backups.initialized heq
  have hrecovery : w'.recovery = w.recovery := congrArg Backups.recovery heq
  constructor
  · rw [hdeferred, hmanual]
    exact h.unheld
  · rw [hdeferred, hrecovery]
    exact h.reading
  · rw [hinitialized, hrecovery]
    exact h.settled

/-- What is held is deferred, and the recovery reads. -/
theorem Held.active {w : Worker} (h : Held w) (hmanual : w.manual = true) : w.recovery.active = true := by
  apply h.reading
  intro hnone
  rw [h.unheld hnone] at hmanual
  exact absurd hmanual (by decide)

theorem Held.dropped {w : Worker} (hdeferred : w.deferred = none) (hmanual : w.manual = false)
    (hover : w.recovery.active = false) : Held w :=
  ⟨fun _ => hmanual, fun h => absurd hdeferred h, fun _ => hover⟩

/-- What becomes of some requests: the counter answers them, or one is held. -/
inductive Answered (w w' : Worker) (asked : Nat) : Prop where
  | counted (h : w'.health.manualBackups = w.health.manualBackups + 1) (hleft : w'.manual.toNat < asked)
  | held (h : w'.health.manualBackups = w.health.manualBackups) (hleft : w'.manual.toNat ≤ asked)
      (hheld : 0 < asked → w'.manual = true)

theorem Answered.still {w w' w'' : Worker} {asked : Nat} (h : Answered w w' asked)
    (hstill : Still w' w'') : Answered w w'' asked := by
  have hcount := hstill.manualBackups
  have hmanual := hstill.manual
  cases h with
  | counted h hleft => exact .counted (hcount.trans h) (by rwa [hmanual])
  | held h hleft hheld =>
    exact .held (hcount.trans h) (by rwa [hmanual]) fun hasked => hmanual.trans (hheld hasked)

/-- The counter has not moved before. -/
theorem Answered.since {w w' w'' : Worker} {asked : Nat} (h : Answered w' w'' asked)
    (hcount : w'.health.manualBackups = w.health.manualBackups) : Answered w w'' asked := by
  cases h with
  | counted h hleft => exact .counted (h.trans (congrArg (· + 1) hcount)) hleft
  | held h hleft hheld => exact .held (h.trans hcount) hleft hheld

/-- What one part of an iteration does to the requests. -/
structure Advances (w w' : Worker) (asked : Nat) : Prop where
  held : Held w'
  answered : w'.asleep = false → Answered w w' asked

theorem Advances.still {w w' w'' : Worker} {asked : Nat} (h : Advances w w' asked)
    (hstill : Still w' w'') : Advances w w'' asked := by
  refine ⟨h.held.of_backups hstill.backups, fun hawake => ?_⟩
  rw [hstill.asleep] at hawake
  exact (h.answered hawake).still hstill

theorem pos_of_manual {manual : Bool} (h : 0 < manual.toNat) : manual = true := by
  cases manual with
  | false => exact absurd h (by decide)
  | true => rfl

/-- Requests that are deferred together count as one. -/
theorem merged (held manual : Bool) :
    (held || manual).toNat ≤ held.toNat + manual.toNat ∧
      (0 < held.toNat + manual.toNat → (held || manual) = true) := by
  cases held <;> cases manual <;> decide

/-- What leaves the backups alone answers nothing. -/
theorem Held.advances {w w' : Worker} (h : Held w) (heq : w'.backups = w.backups) :
    Advances w w' w.manual.toNat := by
  have hcount : w'.health.manualBackups = w.health.manualBackups := congrArg Backups.manualBackups heq
  have hmanual : w'.manual = w.manual := congrArg Backups.manual heq
  refine ⟨h.of_backups heq, fun _ => .held hcount ?_ fun hasked => ?_⟩
  · rw [hmanual]
  · exact hmanual.trans (pos_of_manual hasked)

theorem step_inactive {r : HistoryRecovery} (h : r.active = false) (passes : List RecoveryPass) :
    r.step passes = (r, []) := by
  cases passes with
  | nil => rfl
  | cons p passes => simp only [HistoryRecovery.step, h, Bool.false_eq_true, if_false]

section Steps

variable {s : Firmware} {w : Worker}

/-! ## Steps of the worker -/

/-- What a backup that is not deferred does to the counter. -/
theorem finishBackup_spec (w : Worker) (state : State) (manual : Bool) (a : BackupAnswers) :
    ∃ w', Still w w' ∧ (w.finishBackup s state manual a).value =
      if manual then { w' with health.manualBackups := w'.health.manualBackups + 1 } else w' :=
  ⟨_, backupIgnores_still w state manual a, rfl⟩

theorem Held.save (h : Held w) (state : State) (manual : Bool) (a : Answers) :
    Held (w.save s state manual a).value := by
  unfold Worker.save
  split
  · exact ⟨h.unheld, h.reading, h.settled⟩
  · dsimp only
    split
    · rename_i hactive
      exact ⟨nofun, fun _ => hactive, h.settled⟩
    · obtain ⟨w', hstill, hvalue⟩ := finishBackup_spec (s := s)
        { w with health.saves := w.health.saves + 1 } state manual a.backup
      have hheld : Held w' := h.of_backups hstill.backups
      rw [hvalue]
      cases manual with
      | false => exact hheld
      | true => exact ⟨hheld.unheld, hheld.reading, hheld.settled⟩

theorem Held.save_answers (h : Held w) (state : State) (manual : Bool) (a : Answers) :
    Answered w (w.save s state manual a).value (w.manual.toNat + manual.toNat) := by
  unfold Worker.save
  split
  · cases manual with
    | false => exact .held rfl (Nat.le_refl _) pos_of_manual
    | true => exact .counted rfl (Nat.lt_succ_self _)
  · dsimp only
    split
    · exact .held rfl (merged w.manual manual).1 (merged w.manual manual).2
    · rename_i hactive
      obtain ⟨w', hstill, hvalue⟩ := finishBackup_spec (s := s)
        { w with health.saves := w.health.saves + 1 } state manual a.backup
      have hcount : w'.health.manualBackups = w.health.manualBackups := hstill.manualBackups
      -- Nothing is held once the recovery is over.
      have hmanual : w.manual = false := by
        by_contra hheld
        exact hactive (h.active (by simpa using hheld))
      have hmanual' : w'.manual = false := hstill.manual.trans hmanual
      rw [hvalue]
      cases manual with
      | false =>
        refine .held hcount ?_ ?_
        · simp [hmanual']
        · simp [hmanual]
      | true =>
        refine .counted (congrArg (· + 1) hcount) ?_
        simp [hmanual']

/-- A backup is deferred, so the recovery has never been over. -/
theorem Held.uninitialized (h : Held w) (hdeferred : w.deferred ≠ none) : w.initialized = false := by
  cases hinitialized : w.initialized with
  | false => rfl
  | true =>
    have hactive := h.reading hdeferred
    rw [h.settled hinitialized] at hactive
    exact absurd hactive (by decide)

/-- Once the recovery is over, what was deferred is done and counted. -/
theorem backupDeferred_advances (w : Worker) (hunheld : w.deferred = none → w.manual = false)
    (hover : w.recovery.active = false) (a : BackupAnswers) :
    Advances w (w.backupDeferred s a).value w.manual.toNat := by
  unfold backupDeferred
  split
  · rename_i hnone
    exact (Held.dropped hnone (hunheld hnone) hover).advances rfl
  · rename_i state _
    obtain ⟨w', hstill, hvalue⟩ := finishBackup_spec (s := s) w state w.manual a
    have hover' : w'.recovery.active = false := (congrArg HistoryRecovery.active hstill.recovery).trans hover
    simp only [value_bind, hvalue]
    cases hmanual : w.manual with
    | false =>
      exact ⟨.dropped rfl rfl hover', fun _ => .held hstill.manualBackups (Nat.le_refl 0) nofun⟩
    | true =>
      have hcount := congrArg (· + 1) hstill.manualBackups
      exact ⟨.dropped rfl rfl hover', fun _ => .counted hcount Nat.one_pos⟩

theorem Held.prepare (h : Held w) (t : Turn) :
    Advances w (w.prepare s t).value w.manual.toNat := by
  let w₁ := (w.check t.passes).value
  change Advances w (w₁.complete s t.opened t.completed).value w.manual.toNat
  have hunheld : w₁.deferred = none → w₁.manual = false := h.unheld
  unfold complete
  split
  · rename_i hquiet
    have hsettled : w.initialized = true → w₁.recovery = w.recovery := by
      intro hinitialized
      have hidle := step_inactive (h.settled hinitialized) (t.passes.take 16)
      exact congrArg Prod.fst hidle
    refine ⟨⟨hunheld, fun hdeferred => ?_, fun hinitialized => ?_⟩, fun _ => ?_⟩
    · have hfirst : w₁.initialized = false := h.uninitialized hdeferred
      simpa [hfirst] using hquiet
    · exact (congrArg HistoryRecovery.active (hsettled hinitialized)).trans (h.settled hinitialized)
    · exact .held rfl (Nat.le_refl _) pos_of_manual
  · rename_i hfirst
    have hover : w₁.recovery.active = false := by simp_all
    let w₂ : Worker := { w₁ with initialized := true, health.checking := false }
    let w₃ := (w₂.openFirst s t.opened).value
    have hopened : Still w₂ w₃ := openFirst_still w₂ t.opened
    have hmanual : w₃.manual = w.manual := hopened.manual
    have hdone : Advances w₃ (w₃.backupDeferred s t.completed).value w₃.manual.toNat := by
      refine backupDeferred_advances w₃ ?_ ?_ t.completed
      · rw [hopened.deferred, hopened.manual]
        exact hunheld
      · rw [hopened.recovery]
        exact hover
    rw [hmanual] at hdone
    exact ⟨hdone.held, fun hawake => (hdone.answered hawake).since hopened.manualBackups⟩

/-! ## Messages -/

theorem exportRows_backups (w : Worker) (a : Answers) : (w.exportRows s a).value.backups = w.backups := by
  unfold exportRows
  split
  · rfl
  · have hflush := (flush_still w a.flush).backups
    simp only [value_bind]
    split
    · exact hflush
    · simp only [value_bind]
      split
      · exact hflush
      · exact hflush

/-- The `Sleep` goes through: the State is saved, the recovery lets go of the card
and the log is flushed. -/
def sleeps (w : Worker) (a : Answers) : Bool :=
  a.persisted && ((!w.recovery.closeFailed && ((!w.recovery.input || a.inputClosed) &&
    (!w.recovery.directory || a.recoveryClosed))) && (!w.file || (a.flush.flushed && a.flush.synced)))

theorem cancel_cancelled (r : HistoryRecovery) (closed directoryClosed : Bool) :
    (r.cancel closed directoryClosed).1.cancelled =
      (!r.closeFailed && ((!r.input || closed) && (!r.directory || directoryClosed))) := by
  obtain ⟨root, directory, input, path, good, readOnly, closeFailed, files, rows, errors⟩ := r
  cases input <;> cases directory <;> cases closed <;> cases directoryClosed <;> cases closeFailed <;> rfl

/-- The worker once a `Sleep` has dropped what was deferred. -/
def undeferred (w : Worker) (a : Answers) : Worker :=
  { (w.cancelRecovery a).value with deferred := none, manual := false }

theorem flush_result (w : Worker) (a : FlushAnswers) :
    (w.flush a).value.1 = (!w.file || (a.flushed && a.synced)) := by
  unfold flush
  cases w.file <;> rfl

theorem sleep_spec (w : Worker) (state : State) (a : Answers) :
    ∃ flushed w', Still (w.undeferred a) w' ∧
      (w.sleep s state a).value = (if flushed then { w' with file := false, asleep := true }
        else { w' with health.sleepFailed := true }) ∧
      (w.recovery.active = true → flushed = w.sleeps a) := by
  let w₁ := w.undeferred a
  let ok := a.persisted && w₁.recovery.cancelled
  let w₂ := (if ok && !w.recovery.active then w₁.backupIgnores s state false a.backup else pure w₁).value
  let v := (if ok then w₂.flush a.flush else pure (false, w₂)).value
  have hbackup : Still w₁ w₂ := by
    change Still w₁ (if _ then _ else _ : WorkerIo Worker).value
    split
    · exact backupIgnores_still w₁ state false a.backup
    · exact .refl w₁
  have hflush : Still w₂ v.2 := by
    change Still w₂ (if _ then _ else _ : WorkerIo (Bool × Worker)).value.2
    split
    · exact flush_still w₂ a.flush
    · exact .refl w₂
  refine ⟨v.1, v.2, hbackup.trans hflush, ?_, fun hactive => ?_⟩
  · change (if v.1 then _ else _ : WorkerIo Worker).value = _
    split
    · rfl
    · rfl
  · have hw₂ : w₂ = w₁ := by
      change (if (ok && !w.recovery.active) = true then _ else _ : WorkerIo Worker).value = w₁
      rw [hactive, Bool.not_true, Bool.and_false]
      rfl
    have hok : ok = (a.persisted && (!w.recovery.closeFailed && ((!w.recovery.input || a.inputClosed) &&
        (!w.recovery.directory || a.recoveryClosed)))) :=
      congrArg (a.persisted && ·) (cancel_cancelled w.recovery a.inputClosed a.recoveryClosed)
    have hresult : v.1 = (ok && (!w.file || (a.flush.flushed && a.flush.synced))) := by
      change (if ok = true then _ else _ : WorkerIo (Bool × Worker)).value.1 = _
      cases ok with
      | false => rfl
      | true =>
        rw [if_pos rfl, flush_result, hw₂, Bool.true_and]
        rfl
    rw [hresult, hok, sleeps, Bool.and_assoc]

theorem sleep_over (w : Worker) (a : Answers) : (w.undeferred a).recovery.active = false :=
  (HistoryRecovery.cancel_idle w.recovery a.inputClosed a.recoveryClosed).active

/-- A `Sleep` drops a manual backup that was deferred, and then does not go through. -/
def strands (w : Worker) (m : Option Message) (a : Answers) : Bool :=
  match m with
  | some (.Sleep _) => w.manual && !w.sleeps a
  | _ => false

theorem sleep_advances (h : Held w) (state : State) (a : Answers)
    (hkept : w.strands (some (.Sleep state)) a = false) :
    Advances w (w.sleep s state a).value w.manual.toNat := by
  obtain ⟨flushed, w', hstill, hvalue, hresult⟩ := sleep_spec (s := s) w state a
  have hover : w'.recovery.active = false := by
    rw [hstill.recovery]
    exact sleep_over w a
  have hcount : w'.health.manualBackups = w.health.manualBackups := hstill.manualBackups
  rw [hvalue]
  cases flushed with
  | true => exact ⟨.dropped hstill.deferred hstill.manual hover, nofun⟩
  | false =>
    have hmanual' : w'.manual = false := hstill.manual
    refine ⟨.dropped hstill.deferred hmanual' hover, fun _ => .held hcount ?_ fun hasked => ?_⟩
    · simp [hmanual']
    have hmanual := pos_of_manual hasked
    -- The recovery reads, so the sleep has gone through.
    have hfailed := hresult (h.active hmanual)
    rw [strands, hmanual, ← hfailed] at hkept
    exact absurd hkept (by decide)

/-- The dropped backup is not counted. -/
theorem sleep_strands (h : Held w) (state : State) {a : Answers} (hmanual : w.manual = true)
    (hfails : w.sleeps a = false) :
    Held (w.sleep s state a).value ∧ (w.sleep s state a).value.manual = false ∧
      (w.sleep s state a).value.health.manualBackups = w.health.manualBackups ∧
      (w.sleep s state a).value.asleep = w.asleep := by
  obtain ⟨flushed, w', hstill, hvalue, hresult⟩ := sleep_spec (s := s) w state a
  have hflushed : flushed = false := (hresult (h.active hmanual)).trans hfails
  have hover : w'.recovery.active = false := by
    rw [hstill.recovery]
    exact sleep_over w a
  rw [hvalue, hflushed]
  exact ⟨.dropped hstill.deferred hstill.manual hover, hstill.manual, hstill.manualBackups, hstill.asleep⟩

theorem eject_advances (h : Held w) (a : Answers) :
    Advances w (w.eject a).value w.manual.toNat := by
  unfold eject
  split
  · exact h.advances rfl
  · have hover : (w.cancelRecovery a).value.recovery.active = false :=
      (HistoryRecovery.cancel_idle w.recovery a.inputClosed a.recoveryClosed).active
    refine ⟨.dropped rfl rfl hover, fun _ => ?_⟩
    let ok := (closeLog w.file a.close).value.1 && (w.cancelRecovery a).value.recovery.cancelled
    let health := if ok then (w.cancelRecovery a).value.health else (w.cancelRecovery a).value.health.failing
    have hcount : health.manualBackups = w.health.manualBackups := by
      change (if ok = true then _ else _ : Health).manualBackups = _
      cases ok with
      | false => rfl
      | true => rfl
    cases hmanual : w.manual with
    | false =>
      refine .held ?_ (Nat.le_refl 0) nofun
      change (if w.manual = true then health.manualBackups + 1 else health.manualBackups) = _
      rw [hmanual, hcount]
      rfl
    | true =>
      refine .counted ?_ Nat.one_pos
      change (if w.manual = true then health.manualBackups + 1 else health.manualBackups) = _
      rw [hmanual, hcount]
      rfl

/-- How many manual backups a message asks for. -/
def Message.backups : Message → Nat
  | .BackupIgnores _ => 1
  | _ => 0

theorem Held.receive (h : Held w) (t : Turn) (hkept : w.strands t.message t.answers = false) :
    Advances w (w.receive s t).value (w.manual.toNat + (t.message.elim 0 Message.backups)) := by
  unfold Worker.receive
  cases hm : t.message with
  | none => exact h.advances rfl
  | some m =>
    rw [hm] at hkept
    cases m with
    | BackupIgnores state =>
      exact ⟨h.save state true t.answers, fun _ => h.save_answers state true t.answers⟩
    | Save state =>
      exact ⟨h.save state false t.answers, fun _ => h.save_answers state false t.answers⟩
    | Sleep state => exact sleep_advances h state t.answers hkept
    | Eject => exact eject_advances h t.answers
    | Record r => exact h.advances (record_still w r t.answers).backups
    | Export =>
      have hspace := spaceStatus_still (w.exportRows s t.answers).value t.answers.space
      exact h.advances (hspace.backups.trans (exportRows_backups w t.answers))
    | Clear => exact h.advances (clear_still w t.answers).backups
    | Diagnostics text => exact h.advances (diagnostics_still w t.answers).backups
    | Sound => exact h.advances rfl

end Steps

end Worker

end Hound
