import Hound.Storage.Worker

/-!
# One iteration of the storage task

What an iteration keeps, by what came before it. After an eject it does nothing
to the card. While the card is in use it keeps the failures of the recovery, and
closes the log where a record, an export, a clear or a sleep does.
-/

namespace Hound

/-! ## Failures the recovery remembers -/

/-- No close, truncation or sync that failed. -/
def CardEvent.settled : CardEvent → Bool
  | .flushed _ ok => ok
  | .synced _ ok => ok
  | .closed _ ok => ok
  | .truncated _ _ ok => ok
  | .closedDir ok => ok
  | _ => true

/-- No close and no repair that failed. -/
def WorkerEvent.settled : WorkerEvent → Bool
  | .checking e => e.settled
  | .closing e => e.settled
  | _ => true

namespace HistoryRecovery

/-- What `r` becomes after some events remembers the failures of both. -/
structure Latches (r : HistoryRecovery) (after : HistoryRecovery × List CardEvent) : Prop where
  sticky : r.closeFailed = true → after.1.closeFailed = true
  settled : ∀ e ∈ after.2, e.settled = true ∨ after.1.closeFailed = true

theorem Latches.refl (r : HistoryRecovery) : Latches r (r, []) := ⟨id, nofun⟩

theorem Latches.trans {r r' r'' : HistoryRecovery} {before after : List CardEvent}
    (h : Latches r (r', before)) (h' : Latches r' (r'', after)) : Latches r (r'', before ++ after) := by
  constructor
  · exact fun hr => h'.sticky (h.sticky hr)
  · intro e he
    rcases List.mem_append.mp he with he | he
    · exact (h.settled e he).imp_right h'.sticky
    · exact h'.settled e he

/-- An event that cannot fail a close may come first. -/
theorem Latches.cons {r r' : HistoryRecovery} {e : CardEvent} {events : List CardEvent}
    (he : e.settled = true) (h : Latches r (r', events)) : Latches r (r', e :: events) :=
  ⟨h.sticky, List.forall_mem_cons.mpr ⟨.inl he, h.settled⟩⟩

/-- The fields other than `closeFailed` do not matter. -/
theorem Latches.of_eq {r r' : HistoryRecovery} {after : HistoryRecovery × List CardEvent}
    (h : Latches r' after) (heq : r'.closeFailed = r.closeFailed) : Latches r after :=
  ⟨fun hr => h.sticky (heq.trans hr), h.settled⟩

@[simp] theorem error_closeFailed (r : HistoryRecovery) : r.error.closeFailed = r.closeFailed := rfl

theorem closeInput_latches (r : HistoryRecovery) (closed : Bool) : Latches r (r.closeInput closed) := by
  unfold closeInput
  cases r.input with
  | false => exact .refl r
  | true =>
    cases closed with
    | false => exact ⟨fun _ => rfl, fun _ _ => .inr rfl⟩
    | true => exact ⟨id, by simp [CardEvent.settled]⟩

theorem cancel_latches (r : HistoryRecovery) (closed directoryClosed : Bool) :
    Latches r (r.cancel closed directoryClosed) := by
  have hinput := closeInput_latches r closed
  unfold cancel
  generalize r.closeInput closed = c at hinput ⊢
  obtain ⟨r', events⟩ := c
  dsimp only
  split
  · refine hinput.trans ?_
    cases directoryClosed with
    | false => exact ⟨fun _ => rfl, fun _ _ => .inr rfl⟩
    | true => exact ⟨id, by simp [CardEvent.settled]⟩
  · exact hinput

theorem repair_latches (r : HistoryRecovery) (p : RecoveryPass) : Latches r (r.repair p) := by
  unfold repair
  cases p.reopened with
  | false => exact ⟨id, by simp [CardEvent.settled]⟩
  | true =>
    refine .cons rfl (Latches.trans ?_ (closeInput_latches _ p.reclosed))
    cases p.truncated with
    | false => exact ⟨fun _ => rfl, fun _ _ => .inr rfl⟩
    | true =>
      cases p.synced with
      | false => exact ⟨fun _ => rfl, fun _ _ => .inr rfl⟩
      | true => exact ⟨id, by simp [CardEvent.settled]⟩

theorem finishFile_latches (r : HistoryRecovery) (partial' : Bool) (p : RecoveryPass) :
    Latches r (r.finishFile partial' p) := by
  have hstart : (if p.streamError then r.error else r).closeFailed = r.closeFailed := by
    cases p.streamError <;> rfl
  unfold finishFile
  generalize (if p.streamError then r.error else r) = s at hstart
  refine Latches.of_eq ?_ hstart
  have hclosed := closeInput_latches s p.closed
  dsimp only
  generalize s.closeInput p.closed = c at hclosed ⊢
  obtain ⟨s', events⟩ := c
  dsimp only
  split
  · exact hclosed
  · exact hclosed.trans (repair_latches s' p)

theorem nextFile_latches (r : HistoryRecovery) (p : RecoveryPass) : Latches r (r.nextFile p) := by
  unfold nextFile
  cases p.entry with
  | failed => exact .cons rfl (.of_eq (cancel_latches r.error p.closed p.directoryClosed) rfl)
  | done => exact .cons rfl (cancel_latches r p.closed p.directoryClosed)
  | entry name =>
    dsimp only
    split
    · exact .cons rfl (.refl r)
    · split
      · exact .cons rfl (.of_eq (cancel_latches _ p.closed p.directoryClosed) rfl)
      · split
        · exact .cons rfl (.of_eq (.refl _) rfl)
        · split
          · exact .cons rfl (.cons rfl (.of_eq (.refl _) rfl))
          · exact .cons rfl (.cons rfl (.of_eq (.refl _) rfl))

theorem nextLine_latches (r : HistoryRecovery) (p : RecoveryPass) : Latches r (r.nextLine p) := by
  unfold nextLine
  cases p.line with
  | none => exact .cons rfl (finishFile_latches r false p)
  | some scratch =>
    dsimp only
    split
    · have hstart : (if p.eof then r else r.error).closeFailed = r.closeFailed := by
        cases p.eof <;> rfl
      exact .cons rfl (.of_eq (finishFile_latches _ p.eof p) hstart)
    · split
      · exact .cons rfl (.of_eq (finishFile_latches r.error false p) rfl)
      · cases p.told with
        | none => exact .cons rfl (.of_eq (finishFile_latches r.error false p) rfl)
        | some good => exact .cons rfl (.of_eq (.refl _) rfl)

theorem step_latches (r : HistoryRecovery) (passes : List RecoveryPass) : Latches r (r.step passes) := by
  induction passes generalizing r with
  | nil => exact .refl r
  | cons p passes ih =>
    unfold step
    cases r.active with
    | false => exact .refl r
    | true =>
      have hpass : Latches r (r.pass p) := by
        unfold pass
        split
        · exact nextLine_latches r p
        · exact nextFile_latches r p
      exact hpass.trans (ih _)

theorem begin_latches (r : HistoryRecovery) (root : Bytes) (opened : Bool) :
    Latches r (r.begin root opened) := by
  unfold begin
  split
  · exact .refl r
  · cases opened with
    | false => exact ⟨id, by simp [CardEvent.settled]⟩
    | true => exact ⟨id, by simp [CardEvent.settled]⟩

/-- A recovery that has let go of the card. -/
def Idle (r : HistoryRecovery) : Prop := r.directory = false ∧ r.input = false

theorem Idle.active {r : HistoryRecovery} (h : r.Idle) : r.active = false := h.1

theorem Idle.step {r : HistoryRecovery} (h : r.Idle) (passes : List RecoveryPass) :
    r.step passes = (r, []) := by
  cases passes with
  | nil => rfl
  | cons p passes => simp only [HistoryRecovery.step, h.active, Bool.false_eq_true, if_false]

theorem Idle.cancel {r : HistoryRecovery} (h : r.Idle) (closed directoryClosed : Bool) :
    r.cancel closed directoryClosed = (r, []) := by
  simp only [HistoryRecovery.cancel, closeInput, h.1, h.2, Bool.false_eq_true, if_false]

theorem cancel_idle (r : HistoryRecovery) (closed directoryClosed : Bool) :
    (r.cancel closed directoryClosed).1.Idle := by
  have hinput : (r.closeInput closed).1.input = false := by
    unfold closeInput
    split
    · rfl
    · rename_i h
      simpa using h
  unfold HistoryRecovery.cancel
  generalize r.closeInput closed = c at hinput ⊢
  obtain ⟨r', events⟩ := c
  dsimp only at hinput ⊢
  split
  · cases directoryClosed with
    | false => exact ⟨rfl, hinput⟩
    | true => exact ⟨rfl, hinput⟩
  · rename_i hdir
    exact ⟨by simpa using hdir, hinput⟩

end HistoryRecovery

namespace Worker

open Logged HistoryExport

/-! ## After an eject -/

/-- The worker has published an eject, with this result, and holds nothing of the card. -/
structure Retired (failed : Bool) (w : Worker) : Prop where
  ejected : w.health.ejected = true
  result : w.health.ejectFailed = failed
  file : w.file = false
  recovery : w.recovery.Idle
  pending : w.pending = 0
  initialized : w.initialized = true

section Retired

variable {failed : Bool} {w : Worker} {s : Firmware}

theorem Retired.status (h : Retired failed w) (status : IgnoreBackupStatus) :
    Retired failed (w.backupStatus status) :=
  ⟨h.ejected, h.result, h.file, h.recovery, h.pending, h.initialized⟩

theorem Retired.flush (h : Retired failed w) (a : FlushAnswers) : w.flush a = pure (true, w) := by
  simp only [Worker.flush, h.file, Bool.not_false, if_true]

theorem Retired.spaceStatus (h : Retired failed w) (space : Option Space) :
    w.spaceStatus space = pure w := by
  simp only [Worker.spaceStatus, h.ejected, Bool.or_true, if_true]

theorem Retired.exportRows (h : Retired failed w) (a : Answers) : w.exportRows s a = pure w := by
  simp only [Worker.exportRows, h.ejected, Bool.or_true, Bool.true_or, if_true]

theorem Retired.backupIgnores (h : Retired failed w) (state : State) (force : Bool)
    (a : BackupAnswers) : Silent (w.backupIgnores s state force a) (Retired failed) := by
  unfold Worker.backupIgnores
  split
  · exact meets_pure (h.status .NoCard)
  · rw [if_pos h.ejected]
    exact meets_pure (h.status .Ejected)

theorem Retired.finishBackup (h : Retired failed w) (state : State) (manual : Bool)
    (a : BackupAnswers) : Silent (w.finishBackup s state manual a) (Retired failed) := by
  refine (h.backupIgnores state manual a).bind fun w' h' => meets_pure ?_
  cases manual with
  | false => exact h'
  | true => exact ⟨h'.ejected, h'.result, h'.file, h'.recovery, h'.pending, h'.initialized⟩

theorem Retired.save (h : Retired failed w) (state : State) (manual : Bool) (a : Answers) :
    Silent (w.save s state manual a) (Retired failed) := by
  have hcounted : Retired failed { w with health.saves := w.health.saves + 1 } :=
    ⟨h.ejected, h.result, h.file, h.recovery, h.pending, h.initialized⟩
  unfold Worker.save
  split
  · exact meets_pure ⟨h.ejected, h.result, h.file, h.recovery, h.pending, h.initialized⟩
  · rw [if_neg (by simp [h.recovery.active])]
    exact hcounted.finishBackup state manual a.backup

theorem Retired.record (h : Retired failed w) (r : Record) (a : Answers) :
    w.record s r a = pure w := by
  have hnone : w.accepted s r = none := by
    unfold accepted
    split
    · rfl
    · rw [if_pos (by simp [h.file])]
  simp only [Worker.record, hnone]

theorem Retired.clear (h : Retired failed w) (a : Answers) : w.clear s a = pure w := by
  simp only [Worker.clear, h.ejected, Bool.or_true, Bool.true_or, if_true]

theorem Retired.dropFile (h : Retired failed w) (closed : Bool) :
    Silent (w.dropFile closed) (Retired failed) := by
  unfold Worker.dropFile
  rw [if_neg (by simp [h.file])]
  exact (meets_tell (Q := fun _ => True) nofun trivial).bind fun _ _ =>
    meets_pure ⟨h.ejected, h.result, rfl, h.recovery, h.pending, h.initialized⟩

theorem Retired.cancelRecovery (h : Retired failed w) (a : Answers) :
    Silent (w.cancelRecovery a) (Retired failed) := by
  unfold Worker.cancelRecovery
  rw [h.recovery.cancel]
  exact (meets_tell (Q := fun _ => True) nofun trivial).bind fun _ _ =>
    meets_pure ⟨h.ejected, h.result, h.file, h.recovery, h.pending, rfl⟩

theorem Retired.sleep (h : Retired failed w) (state : State) (a : Answers) :
    Silent (w.sleep s state a) (Retired failed) := by
  refine (h.cancelRecovery a).bind fun w₁ h₁ => ?_
  have h₂ : Retired failed { w₁ with deferred := none, manual := false } :=
    ⟨h₁.ejected, h₁.result, h₁.file, h₁.recovery, h₁.pending, h₁.initialized⟩
  refine Meets.bind (Q := Retired failed) ?_ fun w₃ h₃ => ?_
  · split
    · exact h₂.backupIgnores state false a.backup
    · exact meets_pure h₂
  refine Meets.bind (Q := fun v => Retired failed v.2) ?_ fun v hv => ?_
  · split
    · rw [h₃.flush]
      exact meets_pure h₃
    · exact meets_pure h₃
  obtain ⟨flushed, w₄⟩ := v
  cases flushed with
  | false => exact meets_pure ⟨hv.ejected, hv.result, hv.file, hv.recovery, hv.pending, hv.initialized⟩
  | true =>
    refine (hv.dropFile a.closed).bind fun w₅ h₅ => ?_
    exact meets_pure ⟨h₅.ejected, h₅.result, h₅.file, h₅.recovery, h₅.pending, h₅.initialized⟩

theorem Retired.eject (h : Retired failed w) (a : Answers) : w.eject a = pure w := by
  simp only [Worker.eject, h.ejected, if_true]

theorem Retired.diagnostics (h : Retired failed w) (a : Answers) : w.diagnostics a = pure w := by
  simp only [Worker.diagnostics, h.ejected, Bool.not_true, Bool.false_and, Bool.and_false,
    Bool.false_eq_true, if_false]

theorem Retired.handle (h : Retired failed w) (m : Message) (a : Answers) :
    Silent (w.handle s m a) (Retired failed) := by
  cases m with
  | Record r =>
    rw [Worker.handle, h.record]
    exact meets_pure h
  | Save state => exact h.save state false a
  | BackupIgnores state => exact h.save state true a
  | Export =>
    rw [Worker.handle, h.exportRows]
    refine (meets_pure h).bind fun w' h' => ?_
    rw [h'.spaceStatus]
    exact meets_pure h'
  | Clear =>
    rw [Worker.handle, h.clear]
    exact meets_pure h
  | Sleep state => exact h.sleep state a
  | Eject =>
    rw [Worker.handle, h.eject]
    exact meets_pure h
  | Diagnostics text =>
    rw [Worker.handle, h.diagnostics]
    exact meets_pure h
  | Sound => exact meets_pure h

theorem Retired.receive (h : Retired failed w) (t : Turn) :
    Silent (w.receive s t) (Retired failed) := by
  unfold Worker.receive
  split
  · exact meets_pure h
  · exact h.handle _ t.answers

theorem Retired.prepare (h : Retired failed w) (t : Turn) :
    Silent (w.prepare s t) (Retired failed) := by
  have hcheck : Silent (w.check t.passes) (Retired failed) := by
    unfold check
    rw [h.recovery.step]
    exact (meets_tell (Q := fun _ => True) nofun trivial).bind fun _ _ =>
      meets_pure ⟨h.ejected, h.result, h.file, h.recovery, h.pending, h.initialized⟩
  refine hcheck.bind fun w' h' => ?_
  rw [complete, if_pos (by simp [h'.initialized])]
  exact meets_pure h'

theorem Retired.idle (h : Retired failed w) (t : Turn) : w.idle t = pure w := by
  simp only [Worker.idle, h.pending, bne_self_eq_false, Bool.false_and, Bool.false_eq_true, if_false]

/-- An iteration after an eject leaves the card alone. -/
theorem Retired.iterate (h : Retired failed w) (t : Turn) :
    Silent (w.iterate s t) (Retired failed) := by
  unfold Worker.iterate
  split
  · exact meets_pure h
  · refine (h.prepare t).bind fun w₁ h₁ => ?_
    refine (h₁.receive t).bind fun w₂ h₂ => ?_
    split
    · exact meets_pure h₂
    · rw [h₂.idle]
      exact meets_pure h₂

end Retired

/-! ## Before an eject -/

/-- What a worker logs that neither checks nor ejects. In a tidy one the writer of
the log is closed without a failure. -/
def Steady (T : Prop) : WorkerEvent → Prop
  | .card _ => True
  | .closing e => T → e.settled = true
  | _ => False

/-- What the operations on the log and the card leave as it is. -/
structure Keeps (w w' : Worker) : Prop where
  ejected : w'.health.ejected = w.health.ejected
  recovery : w'.recovery = w.recovery
  asleep : w'.asleep = w.asleep

theorem Keeps.refl (w : Worker) : Keeps w w := ⟨rfl, rfl, rfl⟩

theorem Keeps.trans {w w' w'' : Worker} (h : Keeps w w') (h' : Keeps w' w'') : Keeps w w'' :=
  ⟨h'.ejected.trans h.ejected, h'.recovery.trans h.recovery, h'.asleep.trans h.asleep⟩

/-- `trans` with the later step first. -/
theorem Keeps.since {w w' w'' : Worker} (h' : Keeps w' w'') (h : Keeps w w') : Keeps w w'' :=
  h.trans h'

section Steady

variable {T : Prop} {w₀ w : Worker} {s : Firmware}

theorem steady_card (events : List CardEvent) : ∀ e ∈ events.map .card, Steady T e := by
  intro e he
  obtain ⟨event, -, rfl⟩ := List.mem_map.mp he
  exact trivial

/-- Log operations on the card and go on. -/
theorem meets_card {β : Type} {R : β → Prop} {f : Unit → WorkerIo β} (events : List CardEvent)
    (h : Meets (f ()) (Steady T) R) : Meets (tell (events.map .card) >>= f) (Steady T) R :=
  (meets_tell (Q := fun _ => True) (steady_card events) trivial).bind fun _ _ => h

theorem meets_closing {β : Type} {R : β → Prop} {f : Unit → WorkerIo β} (e : CardEvent)
    (he : T → e.settled = true) (h : Meets (f ()) (Steady T) R) :
    Meets (tell [.closing e] >>= f) (Steady T) R :=
  (meets_tell (Q := fun _ => True) (List.forall_mem_singleton.mpr he) trivial).bind fun _ _ => h

/-- What `flush` returns. -/
structure Flushed (w : Worker) (a : FlushAnswers) (v : Bool × Worker) : Prop where
  result : v.1 = (!w.file || (a.flushed && a.synced))
  file : v.2.file = w.file
  keeps : Keeps w v.2

theorem flush_keeps (w : Worker) (a : FlushAnswers) :
    Meets (w.flush a) (Steady T) (Flushed w a) := by
  unfold flush
  cases hfile : w.file with
  | false => exact meets_pure ⟨by rw [hfile]; rfl, rfl, .refl w⟩
  | true =>
    refine (meets_tell (Q := fun _ => True) ?_ trivial).bind fun _ _ => ?_
    · refine List.forall_mem_cons.mpr ⟨trivial, ?_⟩
      split
      · exact List.forall_mem_singleton.mpr trivial
      · exact nofun
    · apply meets_pure
      cases hok : a.flushed && a.synced with
      | false => exact ⟨by rw [hfile, hok]; rfl, rfl, rfl, rfl, rfl⟩
      | true => exact ⟨by rw [hfile, hok]; rfl, rfl, rfl, rfl, rfl⟩

theorem openFile_keeps (id : Bytes) (w : Worker) (opened : Bool) :
    Meets (w.openFile id opened) (Steady T) fun v => Keeps w v.2 := by
  refine meets_card [_] ?_
  cases opened with
  | false => exact meets_pure ⟨rfl, rfl, rfl⟩
  | true => exact meets_pure ⟨rfl, rfl, rfl⟩

theorem spaceStatus_keeps (w : Worker) (space : Option Space) :
    Meets (w.spaceStatus space) (Steady T) (Keeps w) := by
  unfold spaceStatus
  split
  · exact meets_pure (.refl w)
  · refine meets_card [_] ?_
    cases space with
    | none => exact meets_pure (.refl w)
    | some space => exact meets_pure ⟨rfl, rfl, rfl⟩

/-! ### Exports -/

theorem finish_settled {file : CardFile} {a : FinishAnswers}
    (h : a.closed = true ∧ a.synced = true ∧ a.flushed = true) :
    ∀ e ∈ (finish file a).log, e.settled = true := by
  obtain ⟨hclosed, hsynced, hflushed⟩ := h
  simp [finish, CardEvent.settled, hclosed, hsynced, hflushed]

theorem closeLog_steady {writer : Bool} {a : FinishAnswers}
    (h : T → writer = true → a.closed = true ∧ a.synced = true ∧ a.flushed = true) :
    Meets (closeLog writer a) (Steady T) fun _ => True := by
  unfold closeLog
  cases writer with
  | false => exact meets_pure trivial
  | true =>
    refine Meets.bind (Q := fun _ => True) ?_ fun _ _ => meets_pure trivial
    exact Meets.relabel ⟨fun e he ht => finish_settled (h ht rfl) e he, trivial⟩

theorem reopen_steady {a : ExportAnswers}
    (h : T → a.reopened = true → a.sought = false → a.reclosed = true) :
    Meets (reopen a) (Steady T) fun _ => True := by
  refine meets_card [_] ?_
  cases hopened : a.reopened with
  | false => exact meets_pure trivial
  | true =>
    refine meets_card [_] ?_
    cases hsought : a.sought with
    | true => exact meets_pure trivial
    | false => exact meets_closing _ (fun ht => h ht hopened hsought) (meets_pure trivial)

/-- The closes of an export succeed. -/
def ExportCloses (a : ExportAnswers) : Prop :=
  (a.close.closed = true ∧ a.close.synced = true ∧ a.close.flushed = true) ∧
    (a.reopened = true → a.sought = false → a.reclosed = true)

theorem exportHistoryFiles_steady {writer : Bool} {hmac : Hmac} {key : Bytes} {a : ExportAnswers}
    (h : T → writer = true → ExportCloses a) :
    Meets (exportHistoryFiles hmac key writer a) (Steady T) fun _ => True := by
  unfold exportHistoryFiles
  cases hwriter : writer with
  | false => exact meets_pure trivial
  | true =>
    refine (closeLog_steady fun ht _ => (h ht hwriter).1).bind fun v _ => ?_
    obtain ⟨closed, -⟩ := v
    cases closed with
    | false => exact meets_pure trivial
    | true =>
      refine meets_card [_] (Meets.bind (Q := fun _ => True) ?_ fun v _ => ?_)
      · split
        · exact Meets.relabel ⟨fun _ _ => trivial, trivial⟩
        · exact meets_pure trivial
      obtain ⟨written, rows⟩ := v
      refine (reopen_steady fun ht => (h ht hwriter).2).bind fun writer _ => ?_
      refine (meets_tell (Q := fun _ => True) ?_ trivial).bind fun _ _ => meets_pure trivial
      split
      · exact List.forall_mem_singleton.mpr trivial
      · exact nofun

/-- `export_rows` gets as far as closing the log. -/
def exporting (w : Worker) (a : Answers) : Bool :=
  w.health.mounted && !w.health.ejected && !w.health.readOnly && !w.health.failed && w.file &&
    (a.flush.flushed && a.flush.synced)

theorem exportRows_keeps {a : Answers}
    (h : T → w.exporting a = true → ExportCloses a.exporting) :
    Meets (w.exportRows s a) (Steady T) (Keeps w) := by
  unfold exportRows
  split
  · exact meets_pure (.refl w)
  · rename_i hopen
    refine (flush_keeps w a.flush).bind fun v hv => ?_
    obtain ⟨flushed, w₁⟩ := v
    cases flushed with
    | false => exact meets_pure hv.keeps
    | true =>
      refine (exportHistoryFiles_steady fun ht hwriter => h ht ?_).bind fun v _ => ?_
      · have hfile : w.file = true := hv.file.symm.trans hwriter
        have hdone : (a.flush.flushed && a.flush.synced) = true := by simpa [hfile] using hv.result
        simp only [exporting, hfile, hdone, Bool.and_true]
        simpa using hopen
      · dsimp only
        split
        · exact meets_pure (hv.keeps.trans ⟨rfl, rfl, rfl⟩)
        · exact meets_pure (hv.keeps.trans ⟨rfl, rfl, rfl⟩)

/-! ### Ignore lists and saves -/

theorem backupStatus_keeps (w : Worker) (status : IgnoreBackupStatus) :
    Keeps w (w.backupStatus status) := ⟨rfl, rfl, rfl⟩

theorem writeBackup_keeps (state : State) (digest : Digest) (a : BackupAnswers) :
    Meets (w.writeBackup s state digest a) (Steady T) (Keeps w) := by
  unfold writeBackup
  dsimp only
  split
  · exact meets_pure (backupStatus_keeps w .Failed)
  · refine meets_card _ ?_
    split
    · exact meets_pure ⟨rfl, rfl, rfl⟩
    · exact meets_pure ⟨rfl, rfl, rfl⟩

theorem backupIgnores_keeps (state : State) (force : Bool) (a : BackupAnswers) :
    Meets (w.backupIgnores s state force a) (Steady T) (Keeps w) := by
  unfold backupIgnores
  split
  · exact meets_pure (backupStatus_keeps w .NoCard)
  split
  · exact meets_pure (backupStatus_keeps w .Ejected)
  split
  · exact meets_pure (backupStatus_keeps w .ReadOnly)
  split
  · exact meets_pure (backupStatus_keeps w .Failed)
  split
  · exact meets_pure (backupStatus_keeps w .Failed)
  · split
    · exact meets_pure (backupStatus_keeps w .Saved)
    · exact writeBackup_keeps state _ a

theorem finishBackup_keeps (state : State) (manual : Bool) (a : BackupAnswers) :
    Meets (w.finishBackup s state manual a) (Steady T) (Keeps w) := by
  refine (backupIgnores_keeps state manual a).bind fun w' h' => meets_pure ?_
  cases manual with
  | false => exact h'
  | true => exact h'.trans ⟨rfl, rfl, rfl⟩

theorem save_keeps (state : State) (manual : Bool) (a : Answers) :
    Meets (w.save s state manual a) (Steady T) (Keeps w) := by
  unfold save
  split
  · exact meets_pure ⟨rfl, rfl, rfl⟩
  · dsimp only
    split
    · exact meets_pure ⟨rfl, rfl, rfl⟩
    · refine (finishBackup_keeps state manual a.backup).mono (fun _ h => h) fun w' h' => ?_
      exact h'.since ⟨rfl, rfl, rfl⟩

/-! ### Records -/

/-- The record finds the file full. -/
def rotates (s : Firmware) (w : Worker) (r : Record) : Bool :=
  match w.accepted s r with
  | none => false
  | some line => decide (maxFile < w.size + line.length)

theorem rotate_keeps {a : Answers} (h : T → a.closed = true) :
    Meets (w.rotate s a) (Steady T) fun v => Keeps w v.2 := by
  refine (flush_keeps w a.flush).bind fun v hv => meets_closing _ h ?_
  refine (openFile_keeps _ _ _).mono (fun _ h => h) fun v' hv' => ?_
  exact hv.keeps.trans (hv'.since ⟨rfl, rfl, rfl⟩)

theorem append_keeps (line : Bytes) (a : Answers) :
    Meets (w.append line a) (Steady T) (Keeps w) := by
  refine meets_card [_] ?_
  dsimp only
  split
  · exact meets_pure ⟨rfl, rfl, rfl⟩
  · split
    · refine (flush_keeps _ a.full).bind fun v hv => meets_pure ?_
      exact hv.keeps.since ⟨rfl, rfl, rfl⟩
    · exact meets_pure ⟨rfl, rfl, rfl⟩

theorem record_keeps {r : Record} {a : Answers} (h : T → w.rotates s r = true → a.closed = true) :
    Meets (w.record s r a) (Steady T) (Keeps w) := by
  unfold record
  cases haccepted : w.accepted s r with
  | none => exact meets_pure (.refl w)
  | some line =>
    dsimp only
    split
    · rename_i hfull
      have hrotates : w.rotates s r = true := by simpa only [rotates, haccepted, decide_eq_true_eq]
      refine (rotate_keeps fun ht => h ht hrotates).bind fun v hv => ?_
      obtain ⟨opened, w'⟩ := v
      cases opened with
      | false => exact meets_pure hv
      | true => exact (append_keeps line a).mono (fun _ h => h) fun _ => hv.trans
    · exact append_keeps line a

/-! ### Clearing -/

theorem dropFile_keeps {closed : Bool} (h : T → w.file = true → closed = true) :
    Meets (w.dropFile closed) (Steady T) (Keeps w) := by
  refine (meets_tell (Q := fun _ => True) ?_ trivial).bind fun _ _ => meets_pure ⟨rfl, rfl, rfl⟩
  split
  · rename_i hfile
    exact List.forall_mem_singleton.mpr fun ht => h ht hfile
  · exact nofun

theorem clearFiles_steady (entries : List (Bytes × Bool)) :
    Meets (clearFiles entries) (Steady T) fun _ => True := by
  induction entries with
  | nil => exact meets_card [_] (meets_pure trivial)
  | cons entry entries ih =>
    obtain ⟨name, unlinked⟩ := entry
    refine meets_card [_] ?_
    split
    · exact ih
    · exact meets_card [_] (ih.bind fun _ _ => meets_pure trivial)

theorem clearDirectory_steady (a : Answers) :
    Meets (clearDirectory a) (Steady T) fun _ => True := by
  refine meets_card [_] ?_
  split
  · exact meets_pure trivial
  · exact (clearFiles_steady a.entries).bind fun _ _ => meets_card [_] (meets_pure trivial)

theorem restart_keeps (ok opened : Bool) :
    Meets (w.restart s ok opened) (Steady T) (Keeps w) := by
  unfold restart
  split
  · exact meets_pure ⟨rfl, rfl, rfl⟩
  · refine (openFile_keeps _ _ _).bind fun v hv => meets_pure ?_
    have hopened : Keeps w v.2 := hv.since ⟨rfl, rfl, rfl⟩
    exact hopened.trans ⟨rfl, rfl, rfl⟩

/-- `Clear` is carried out. -/
def clearing (w : Worker) : Bool :=
  !(w.recovery.active || (!w.health.mounted || w.health.ejected || w.health.readOnly))

theorem clear_keeps {a : Answers}
    (h : T → w.clearing = true → w.file = true → a.closed = true) :
    Meets (w.clear s a) (Steady T) (Keeps w) := by
  unfold clear
  split
  · exact meets_pure (.refl w)
  · rename_i hclearing
    have hguard : w.clearing = true := by simpa [clearing] using hclearing
    refine (flush_keeps w a.flush).bind fun v hv => ?_
    refine (dropFile_keeps fun ht hfile => h ht hguard (hv.file.symm.trans hfile)).bind fun w₁ h₁ => ?_
    refine (clearDirectory_steady a).bind fun ok _ => ?_
    refine (restart_keeps ok a.opened).bind fun w₂ h₂ => ?_
    refine (spaceStatus_keeps w₂ a.space).mono (fun _ h => h) fun w₃ h₃ => ?_
    exact hv.keeps.trans (h₁.trans (h₂.trans h₃))

theorem diagnostics_keeps (a : Answers) : Meets (w.diagnostics a) (Steady T) (Keeps w) := by
  unfold diagnostics
  split
  · refine meets_card [_] ?_
    split
    · exact meets_pure ⟨rfl, rfl, rfl⟩
    · exact meets_card [_, _] (meets_pure (.refl w))
  · exact meets_pure (.refl w)

/-! ### The loop -/

theorem complete_keeps (opened : Bool) (a : BackupAnswers) :
    Meets (w.complete s opened a) (Steady T) (Keeps w) := by
  unfold complete
  split
  · exact meets_pure (.refl w)
  · refine Meets.bind (Q := Keeps w) ?_ fun w₁ h₁ => ?_
    · unfold openFirst
      split
      · refine (openFile_keeps _ _ _).bind fun v hv => meets_pure ?_
        exact hv.since ⟨rfl, rfl, rfl⟩
      · exact meets_pure ⟨rfl, rfl, rfl⟩
    · unfold backupDeferred
      split
      · exact meets_pure h₁
      · refine (finishBackup_keeps _ _ a).bind fun w₂ h₂ => meets_pure ?_
        exact (h₁.trans h₂).trans ⟨rfl, rfl, rfl⟩

theorem idle_keeps (t : Turn) : Meets (w.idle t) (Steady T) (Keeps w) := by
  unfold idle
  split
  · refine (flush_keeps w t.flush).bind fun v hv => ?_
    exact (spaceStatus_keeps _ t.space).mono (fun _ h => h) fun _ => hv.keeps.trans
  · exact meets_pure (.refl w)

end Steady

/-! ## Runs -/

/-- What has happened while the card is in use: a failure of the recovery is
remembered, and in a tidy run only a sleep closes the log in vain. -/
structure InUse (T : Prop) (x : WorkerIo Worker) : Prop where
  used : x.value.health.ejected = false
  unpublished : ∀ failed, .ejected failed ∉ x.log
  checked : ∀ e, .checking e ∈ x.log → e.settled = true ∨ x.value.recovery.closeFailed = true
  closed : T → ∀ e, .closing e ∈ x.log → e.settled = true ∨ x.value.asleep = true

/-- A computation that starts from `w` and keeps the card in use. -/
structure Sound (T : Prop) (w : Worker) (x : WorkerIo Worker) : Prop extends InUse T x where
  latched : w.recovery.closeFailed = true → x.value.recovery.closeFailed = true
  asleep : w.asleep = true → x.value.asleep = true

section Sound

variable {T : Prop} {w : Worker} {s : Firmware}

theorem InUse.bind {x : WorkerIo Worker} {f : Worker → WorkerIo Worker} (hx : InUse T x)
    (hf : Sound T x.value (f x.value)) : InUse T (x >>= f) := by
  refine ⟨hf.used, ?_, ?_, ?_⟩
  · intro failed he
    rcases List.mem_append.mp he with he | he
    · exact hx.unpublished failed he
    · exact hf.unpublished failed he
  · intro e he
    rcases List.mem_append.mp he with he | he
    · exact (hx.checked e he).imp_right hf.latched
    · exact hf.checked e he
  · intro ht e he
    rcases List.mem_append.mp he with he | he
    · exact (hx.closed ht e he).imp_right hf.asleep
    · exact hf.closed ht e he

theorem Sound.bind {x : WorkerIo Worker} {f : Worker → WorkerIo Worker} (hx : Sound T w x)
    (hf : Sound T x.value (f x.value)) : Sound T w (x >>= f) :=
  ⟨hx.toInUse.bind hf, fun h => hf.latched (hx.latched h), fun h => hf.asleep (hx.asleep h)⟩

theorem sound_pure (hw : w.health.ejected = false) : Sound T w (pure w) :=
  ⟨⟨hw, fun _ => nofun, fun _ => nofun, fun _ _ => nofun⟩, id, id⟩

theorem Sound.of_keeps {x : WorkerIo Worker} (hw : w.health.ejected = false)
    (h : Meets x (Steady T) (Keeps w)) : Sound T w x := by
  refine ⟨⟨h.returned.ejected.trans hw, ?_, ?_, ?_⟩, fun hfailed => ?_, fun hasleep => ?_⟩
  · exact fun failed he => h.logged _ he
  · exact fun e he => (h.logged _ he).elim
  · exact fun ht e he => .inl (h.logged _ he ht)
  · rw [h.returned.recovery]
    exact hfailed
  · rw [h.returned.asleep]
    exact hasleep

/-- Operations on the log and the card before a sound computation. -/
theorem Sound.after {α : Type} {x : WorkerIo α} {f : α → WorkerIo Worker} (π : α → Worker)
    (hw : w.health.ejected = false) (hx : Meets x (Steady T) fun a => Keeps w (π a))
    (hf : ∀ a, (π a).health.ejected = false → Sound T (π a) (f a)) : Sound T w (x >>= f) := by
  have hfirst : Sound T w (x >>= fun a => pure (π a)) :=
    .of_keeps hw (hx.bind fun _ h => meets_pure h)
  have hrest := hf x.value hfirst.used
  have hboth : Sound T w ((x >>= fun a => pure (π a)) >>= fun _ => f x.value) := hfirst.bind hrest
  refine ⟨⟨hboth.used, fun failed => ?_, fun e => ?_, fun ht e => ?_⟩, hboth.latched, hboth.asleep⟩
  · simpa using hboth.unpublished failed
  · simpa using hboth.checked e
  · simpa using hboth.closed ht e

/-- Events of the recovery, and a worker with what the recovery has become. -/
theorem sound_recovery {w' : Worker} {after : HistoryRecovery × List CardEvent}
    (hlatches : HistoryRecovery.Latches w.recovery after) (hrecovery : w'.recovery = after.1)
    (hused : w'.health.ejected = false) (hasleep : w'.asleep = w.asleep) :
    Sound T w (tell (after.2.map .checking) >>= fun _ => pure w') := by
  refine ⟨⟨hused, fun failed he => ?_, fun e he => ?_, fun _ e he => ?_⟩, fun h => ?_, fun h => ?_⟩
  · simp at he
  · have hmem : e ∈ after.2 := by simpa using he
    rcases hlatches.settled e hmem with hsettled | hfailed
    · exact .inl hsettled
    · right
      change w'.recovery.closeFailed = true
      rw [hrecovery]
      exact hfailed
  · simp at he
  · change w'.recovery.closeFailed = true
    rw [hrecovery]
    exact hlatches.sticky h
  · exact hasleep.trans h

theorem sound_cancelRecovery (hw : w.health.ejected = false) (a : Answers) :
    Sound T w (w.cancelRecovery a) :=
  sound_recovery (HistoryRecovery.cancel_latches w.recovery a.inputClosed a.recoveryClosed) rfl hw rfl

theorem sound_prepare (hw : w.health.ejected = false) (t : Turn) : Sound T w (w.prepare s t) := by
  have hcheck : Sound T w (w.check t.passes) :=
    sound_recovery (HistoryRecovery.step_latches w.recovery (t.passes.take 16)) rfl hw rfl
  exact hcheck.bind (.of_keeps hcheck.used (complete_keeps t.opened t.completed))

theorem prepare_asleep (w : Worker) (t : Turn) : (w.prepare s t).value.asleep = w.asleep :=
  (complete_keeps (T := True) t.opened t.completed).returned.asleep

/-- Closing the log before a sleep may fail: nothing follows it. -/
theorem sound_asleep (hw : w.health.ejected = false) (closed : Bool) :
    Sound T w (w.dropFile closed >>= fun w => pure { w with asleep := true }) := by
  have hdrop : Meets (w.dropFile closed) (Steady False) (Keeps w) := dropFile_keeps nofun
  refine ⟨⟨hw, fun failed he => ?_, fun e he => ?_, fun _ _ _ => .inr rfl⟩, id, fun _ => rfl⟩
  · exact hdrop.logged _ (by simpa using he)
  · exact False.elim (hdrop.logged (.checking e) (by simpa using he))

theorem sound_sleep (hw : w.health.ejected = false) (state : State) (a : Answers) :
    Sound T w (w.sleep s state a) := by
  have hcancel := sound_cancelRecovery (T := T) hw a
  have hused := hcancel.used
  refine hcancel.bind ?_
  generalize (w.cancelRecovery a).value = w₁ at hused ⊢
  refine .after id hused ?_ fun w₂ h₂ => ?_
  · split
    · refine (backupIgnores_keeps state false a.backup).mono (fun _ h => h) fun _ h => ?_
      exact h.since ⟨rfl, rfl, rfl⟩
    · exact meets_pure ⟨rfl, rfl, rfl⟩
  refine .after Prod.snd h₂ ?_ fun v hv => ?_
  · split
    · exact (flush_keeps w₂ a.flush).mono (fun _ h => h) fun _ h => h.keeps
    · exact meets_pure (.refl w₂)
  obtain ⟨flushed, w₃⟩ := v
  cases flushed with
  | false => exact .of_keeps hv (meets_pure ⟨rfl, rfl, rfl⟩)
  | true => exact sound_asleep hv a.closed

/-- No close of the log fails that this iteration makes for an export, for a full
file or for a clear. -/
def Tidy (s : Firmware) (w : Worker) (t : Turn) : Prop :=
  let ready := (w.prepare s t).value
  w.asleep = false →
    match t.message with
    | some (.Record r) => ready.rotates s r = true → t.answers.closed = true
    | some .Export => ready.exporting t.answers = true → ExportCloses t.answers.exporting
    | some .Clear => ready.clearing = true → ready.file = true → t.answers.closed = true
    | _ => True

theorem sound_receive {t : Turn} (hw : w.health.ejected = false) (hmessage : t.message ≠ some .Eject)
    (htidy : T → match t.message with
      | some (.Record r) => w.rotates s r = true → t.answers.closed = true
      | some .Export => w.exporting t.answers = true → ExportCloses t.answers.exporting
      | some .Clear => w.clearing = true → w.file = true → t.answers.closed = true
      | _ => True) :
    Sound T w (w.receive s t) := by
  unfold receive
  cases hm : t.message with
  | none => exact sound_pure hw
  | some m =>
    rw [hm] at htidy hmessage
    cases m with
    | Record r => exact .of_keeps hw (record_keeps htidy)
    | Save state => exact .of_keeps hw (save_keeps state false t.answers)
    | BackupIgnores state => exact .of_keeps hw (save_keeps state true t.answers)
    | Export =>
      refine .of_keeps hw ((exportRows_keeps htidy).bind fun w₁ h₁ => ?_)
      exact (spaceStatus_keeps w₁ t.answers.space).mono (fun _ h => h) fun _ => h₁.trans
    | Clear => exact .of_keeps hw (clear_keeps htidy)
    | Sleep state => exact sound_sleep hw state t.answers
    | Eject => exact absurd rfl hmessage
    | Diagnostics text => exact .of_keeps hw (diagnostics_keeps t.answers)
    | Sound => exact sound_pure hw

/-- An iteration without an eject. -/
theorem sound_iterate {t : Turn} (hw : w.health.ejected = false) (hmessage : t.message ≠ some .Eject)
    (htidy : T → Tidy s w t) : Sound T w (w.iterate s t) := by
  unfold iterate
  split
  · exact sound_pure hw
  · rename_i hawake
    have hprepare := sound_prepare (T := T) (s := s) hw t
    have hreceive : Sound T (w.prepare s t).value ((w.prepare s t).value.receive s t) :=
      sound_receive hprepare.used hmessage fun ht => htidy ht (by simpa using hawake)
    refine hprepare.bind (hreceive.bind ?_)
    split
    · exact sound_pure hreceive.used
    · exact .of_keeps hreceive.used (idle_keeps t)

end Sound

end Worker

end Hound
