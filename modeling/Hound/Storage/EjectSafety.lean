import Hound.Storage.WorkerSteps

/-!
# Eject

What an eject publishes is the last thing the worker logs: the card is left
alone from then on. Its result covers every failure the recovery remembers, and
the close of its own. How an export, a full file or a clear closed the log is not
remembered.
-/

namespace Hound

namespace Worker

open Logged HistoryExport

/-! ## The eject -/

/-- The worker has retired, and its result is the last that was logged. -/
structure Published (x : WorkerIo Worker) : Prop where
  retired : Retired x.value.health.ejectFailed x.value
  last : ∃ earlier, x.log = earlier ++ [.ejected x.value.health.ejectFailed] ∧
    ∀ failed, .ejected failed ∉ earlier

section Eject

variable {T : Prop} {s : Firmware}

theorem closeLog_file (writer : Bool) (a : FinishAnswers) : (closeLog writer a).value.2 = false := by
  cases writer <;> rfl

/-- `close_log` reports each failure. -/
theorem closeLog_reports {writer : Bool} {a : FinishAnswers} (h : (closeLog writer a).value.1 = true) :
    ∀ e ∈ (closeLog writer a).log, e.settled = true := by
  cases writer with
  | false => exact nofun
  | true =>
    have hall : (a.closed && (a.synced && a.flushed)) = true := h
    simp only [Bool.and_eq_true] at hall
    intro e he
    obtain ⟨event, hevent, rfl⟩ : ∃ event ∈ (finish .log a).log, .closing event = e := by
      simpa [closeLog] using he
    exact finish_settled hall event hevent

theorem closeLog_unpublished (writer : Bool) (a : FinishAnswers) (failed : Bool) :
    .ejected failed ∉ (closeLog writer a).log := by
  have hsteady : Meets (closeLog writer a) (Steady False) fun _ => True := closeLog_steady nofun
  exact fun he => hsteady.logged _ he

/-- Where nothing is remembered, nothing has failed. -/
theorem InUse.settled {x : WorkerIo Worker} (hx : InUse T x) (ht : T)
    (hrecovery : x.value.recovery.closeFailed = false) (hawake : x.value.asleep = false) :
    ∀ e ∈ x.log, e.settled = true := by
  intro e he
  cases e with
  | checking event => exact (hx.checked event he).resolve_right (by simp [hrecovery])
  | closing event => exact (hx.closed ht event he).resolve_right (by simp [hawake])
  | card event => rfl
  | ejected failed => rfl

/-- An eject of a card in use: its result covers all that the recovery remembers
and the close of its own. -/
theorem eject_publishes {x : WorkerIo Worker} (hx : InUse T x) (a : Answers) :
    Published (x >>= fun w => w.eject a) ∧
      (T → x.value.asleep = false → (x.value.eject a).value.health.ejectFailed = false →
        ∀ e ∈ (x >>= fun w => w.eject a).log, e.settled = true) := by
  let w := x.value
  let cancelled := w.cancelRecovery a
  let close := closeLog w.file a.close
  have hw : w.health.ejected = false := hx.used
  have hcancel : Sound T w cancelled := sound_cancelRecovery hw a
  let ok := close.value.1 && cancelled.value.recovery.cancelled
  obtain ⟨y, hy⟩ : ∃ y, w.eject a = y := ⟨_, rfl⟩
  have hlog : y.log = cancelled.log ++ (close.log ++ [.ejected !ok]) := by
    rw [← hy, eject, if_neg (by simp [hw])]
    rfl
  have hresult : y.value.health.ejectFailed = !ok := by
    rw [← hy, eject, if_neg (by simp [hw])]
    rfl
  have hretired : Retired (!ok) y.value := by
    refine ⟨?_, hresult, ?_, ?_, ?_, ?_⟩ <;> rw [← hy, eject, if_neg (by simp [hw])]
    · rfl
    · exact closeLog_file w.file a.close
    · exact HistoryRecovery.cancel_idle w.recovery a.inputClosed a.recoveryClosed
    · rfl
    · rfl
  have hpublished : Published (x >>= fun w => w.eject a) := by
    refine ⟨?_, x.log ++ (cancelled.log ++ close.log), ?_, fun failed he => ?_⟩
    · change Retired (w.eject a).value.health.ejectFailed (w.eject a).value
      rw [hy, hresult]
      exact hretired
    · change x.log ++ (w.eject a).log = _ ++ [.ejected (w.eject a).value.health.ejectFailed]
      rw [hy, hlog, hresult]
      simp only [List.append_assoc]
    · simp only [List.mem_append] at he
      rcases he with he | he | he
      · exact hx.unpublished failed he
      · exact hcancel.unpublished failed he
      · exact closeLog_unpublished w.file a.close failed he
  refine ⟨hpublished, fun ht hawake hsafe e he => ?_⟩
  have hok : ok = true := by
    change (w.eject a).value.health.ejectFailed = false at hsafe
    rw [hy, hresult] at hsafe
    simpa using hsafe
  obtain ⟨hclose, hcancelled⟩ := Bool.and_eq_true_iff.mp hok
  have hremembered : cancelled.value.recovery.closeFailed = false := by
    simpa [HistoryRecovery.cancelled] using hcancelled
  have hbefore : x.value.recovery.closeFailed = false := by
    by_contra hfailed
    have := hcancel.latched (by simpa using hfailed)
    exact absurd this (by simp [hremembered])
  change e ∈ x.log ++ (w.eject a).log at he
  rw [hy, hlog] at he
  simp only [List.mem_append, List.mem_singleton] at he
  rcases he with he | he | he | rfl
  · exact hx.settled ht hbefore hawake e he
  · exact hcancel.settled ht hremembered hawake e he
  · exact closeLog_reports hclose e he
  · rfl

/-! ## Every run -/

/-- What holds of every run: the card is in use, or an eject has been published. -/
structure Told (T : Prop) (x : WorkerIo Worker) : Prop where
  used : x.value.health.ejected = false → InUse T x
  published : x.value.health.ejected = true → Published x
  safe : T → x.value.health.ejected = true → x.value.health.ejectFailed = false →
    ∀ e ∈ x.log, e.settled = true

theorem InUse.told {x : WorkerIo Worker} (hx : InUse T x) : Told T x :=
  ⟨fun _ => hx, fun h => absurd h (by simp [hx.used]), fun _ h => absurd h (by simp [hx.used])⟩

/-- Nothing follows the eject in its iteration. -/
theorem next_ejecting {x : WorkerIo Worker} {t : Turn} (hx : InUse T x)
    (hawake : x.value.asleep = false) (hmessage : t.message = some .Eject) :
    next s x t = ((x >>= fun w => w.prepare s t) >>= fun w => w.eject t.answers) := by
  have hprepared : InUse T (x >>= fun w => w.prepare s t) := hx.bind (sound_prepare hx.used t)
  have hretired := (eject_publishes hprepared t.answers).1.retired
  let w := ((x.value.prepare s t).value.eject t.answers).value
  have hquiet : (if w.asleep then pure w else w.idle t) = pure w := by
    split
    · rfl
    · exact Retired.idle hretired t
  have hiterate : x.value.iterate s t = x.value.prepare s t >>= fun w => w.eject t.answers := by
    rw [iterate, if_neg (by simp [hawake])]
    refine Logged.ext ?_ ?_
    · simp only [value_bind, receive, hmessage, handle]
      have hvalue := congrArg value hquiet
      exact hvalue
    · simp only [log_bind, receive, hmessage, handle]
      rw [congrArg log hquiet, log_pure, List.append_nil]
  rw [next, bind_assoc]
  refine Logged.ext ?_ ?_
  · rw [value_bind, value_bind, hiterate]
  · rw [log_bind, log_bind, hiterate]

theorem told_next {x : WorkerIo Worker} {t : Turn} (hx : Told T x)
    (htidy : T → Tidy s x.value t) : Told T (next s x t) := by
  cases hejected : x.value.health.ejected with
  | true =>
    -- after an eject nothing is logged and its result stays
    have hpublished := hx.published hejected
    have hstays := hpublished.retired.iterate (s := s) t
    have hlog : (next s x t).log = x.log := by
      rw [next, log_bind, hstays.log_eq_nil, List.append_nil]
    have hresult : (next s x t).value.health.ejectFailed = x.value.health.ejectFailed :=
      hstays.returned.result
    refine ⟨fun h => ?_, fun _ => ⟨?_, ?_⟩, fun ht _ hsafe => ?_⟩
    · exact absurd hstays.returned.ejected (Bool.eq_false_iff.mp h)
    · rw [hresult]
      exact hstays.returned
    · rw [hlog, hresult]
      exact hpublished.last
    · rw [hlog]
      exact hx.safe ht hejected (hresult ▸ hsafe)
  | false =>
    have hused := hx.used hejected
    by_cases hmessage : t.message = some .Eject
    · cases hasleep : x.value.asleep with
      | true =>
        have hsame : x.value.iterate s t = pure x.value := by rw [iterate, if_pos hasleep]
        exact (hused.bind (by rw [hsame]; exact sound_pure hejected)).told
      | false =>
        have hprepared : InUse T (x >>= fun w => w.prepare s t) :=
          hused.bind (sound_prepare hejected t)
        have hawake : (x.value.prepare s t).value.asleep = false :=
          (prepare_asleep x.value t).trans hasleep
        obtain ⟨hpublished, hsafe⟩ := eject_publishes hprepared t.answers
        rw [next_ejecting hused hasleep hmessage]
        refine ⟨fun h => ?_, fun _ => hpublished, fun ht _ => hsafe ht hawake⟩
        exact absurd hpublished.retired.ejected (Bool.eq_false_iff.mp h)
    · exact (hused.bind (sound_iterate hejected hmessage htidy)).told

theorem makeDirectories_steady (n : Nat) (answers : List Bool) :
    Meets (makeDirectories n answers) (Steady T) fun _ => True := by
  induction n generalizing answers with
  | zero => exact meets_pure trivial
  | succ n ih =>
    refine meets_card [_] ?_
    split
    · exact ih answers.tail
    · exact meets_pure trivial

theorem told_boot (a : BootAnswers) : Told T (boot a) := by
  let start : Worker := { slots := a.slots, health.mounted := a.mounted }
  have hstart : start.health.ejected = false := rfl
  refine InUse.told ?_
  unfold boot
  dsimp only
  split
  · exact (sound_pure hstart).toInUse
  · refine (Sound.after (fun _ => start) hstart ?_ ?_).toInUse
    · exact (makeDirectories_steady 5 a.directories).mono (fun _ h => h) fun _ _ => .refl _
    · intro directories hused
      cases directories with
      | false => exact .of_keeps rfl (meets_pure ⟨rfl, rfl, rfl⟩)
      | true => exact sound_recovery (HistoryRecovery.begin_latches _ _ a.opened) rfl rfl rfl

theorem told_run (a : BootAnswers) {turns : List Turn}
    (htidy : T → ∀ v ∈ Runs.visited (next s) (boot a) turns, Tidy s v.1.value v.2) :
    Told T (run s a turns) :=
  Runs.invariant_of_guard (Told T) (fun x t => T → Tidy s x.value t)
    (fun _ _ hguard hx => told_next hx hguard) (told_boot a) fun v hv ht => htidy ht v hv

/-! ## The card after an eject -/

/-- Once `health.ejected` is set, what was logged ends with it for good, the
writer is gone, the recovery is over and the result stays. -/
theorem card_left_alone (s : Firmware) (a : BootAnswers) (turns : List Turn)
    (hejected : (run s a turns).value.health.ejected = true) :
    ∃ earlier failed, (∀ result, .ejected result ∉ earlier) ∧
      ∀ later, let x := run s a (turns ++ later)
        x.log = earlier ++ [.ejected failed] ∧ x.value.file = false ∧
          x.value.recovery.active = false ∧ x.value.health.ejected = true ∧
          x.value.health.ejectFailed = failed := by
  have htold : Told False (run s a turns) := told_run a nofun
  have hpublished := htold.published hejected
  obtain ⟨earlier, hlast, hearlier⟩ := hpublished.last
  refine ⟨earlier, (run s a turns).value.health.ejectFailed, hearlier, fun later => ?_⟩
  have hkept : (run s a (turns ++ later)).log = (run s a turns).log ∧
      Retired (run s a turns).value.health.ejectFailed (run s a (turns ++ later)).value := by
    rw [run, Runs.run_append]
    refine Runs.invariant (fun x : WorkerIo Worker => x.log = (run s a turns).log ∧
      Retired (run s a turns).value.health.ejectFailed x.value) ?_ ⟨rfl, hpublished.retired⟩ later
    rintro x t ⟨hlog, hretired⟩
    have hquiet := hretired.iterate (s := s) t
    refine ⟨?_, hquiet.returned⟩
    rw [next, log_bind, hquiet.log_eq_nil, List.append_nil, hlog]
  obtain ⟨hlog, hretired⟩ := hkept
  exact ⟨hlog.trans hlast, hretired.file, hretired.recovery.active, hretired.ejected, hretired.result⟩

/-! ## Closes that failed -/

theorem log_prefix_run (x : WorkerIo Worker) (turns : List Turn) :
    x.log <+: (Runs.run (next s) x turns).log := by
  induction turns generalizing x with
  | nil => exact List.prefix_rfl
  | cons t turns ih => exact (List.prefix_append x.log _).trans (ih (next s x t))

/-- What an iteration logs stays logged. -/
theorem mem_log_run {a : BootAnswers} {turns : List Turn} {v : WorkerIo Worker × Turn}
    (hv : v ∈ Runs.visited (next s) (boot a) turns) {e : WorkerEvent}
    (he : e ∈ (v.1.value.iterate s v.2).log) : e ∈ (run s a turns).log := by
  obtain ⟨before, after, rfl, hrun⟩ := (Runs.mem_visited (next s)).mp hv
  rw [run, Runs.run_append, Runs.run_cons, ← hrun]
  exact (log_prefix_run (next s v.1 v.2) after).subset (List.mem_append_right _ he)

/-- Some close of the log has failed. -/
def Unsettled {α : Type} (x : WorkerIo α) : Prop := ∃ e ∈ x.log, e.settled = false

theorem Unsettled.bind {α β : Type} {x : WorkerIo α} (h : Unsettled x) (f : α → WorkerIo β) :
    Unsettled (x >>= f) := by
  obtain ⟨e, he, hfailed⟩ := h
  exact ⟨e, List.mem_append_left _ he, hfailed⟩

theorem Unsettled.after {α β : Type} {x : WorkerIo α} {f : α → WorkerIo β}
    (h : Unsettled (f x.value)) : Unsettled (x >>= f) := by
  obtain ⟨e, he, hfailed⟩ := h
  exact ⟨e, List.mem_append_right _ he, hfailed⟩

theorem unsettled_closing {e : CardEvent} (h : e.settled = false) :
    Unsettled (tell [.closing e]) := ⟨.closing e, List.mem_singleton_self _, h⟩

theorem record_unsettled {w : Worker} {r : Record} {b : Answers} (hfull : w.rotates s r = true)
    (hclosed : b.closed = false) : Unsettled (w.record s r b) := by
  have hrotate : Unsettled (w.rotate s b) :=
    Unsettled.after ((unsettled_closing (by rw [hclosed]; rfl)).bind _)
  unfold rotates at hfull
  unfold record
  cases haccepted : w.accepted s r with
  | none => simp [haccepted] at hfull
  | some line =>
    have hlong : maxFile < w.size + line.length := by simpa [haccepted] using hfull
    dsimp only
    rw [if_pos hlong]
    exact hrotate.bind _

theorem clear_unsettled {w : Worker} {b : Answers} (hclearing : w.clearing = true)
    (hfile : w.file = true) (hclosed : b.closed = false) : Unsettled (w.clear s b) := by
  have hflush := (flush_keeps (T := True) w b.flush).returned.file.trans hfile
  unfold clear
  rw [if_neg (by simpa [clearing] using hclearing)]
  refine Unsettled.after (Unsettled.bind ?_ _)
  unfold dropFile
  rw [if_pos hflush]
  exact (unsettled_closing (by rw [hclosed]; rfl)).bind _

theorem closeLog_unsettled {b : FinishAnswers}
    (h : ¬ (b.closed = true ∧ b.synced = true ∧ b.flushed = true)) : Unsettled (closeLog true b) := by
  obtain ⟨flushed, synced, closed⟩ := b
  cases flushed with
  | false => exact ⟨.closing (.flushed .log false), by simp [closeLog, finish], rfl⟩
  | true =>
    cases synced with
    | false => exact ⟨.closing (.synced .log false), by simp [closeLog, finish], rfl⟩
    | true =>
      cases closed with
      | false => exact ⟨.closing (.closed .log false), by simp [closeLog, finish], rfl⟩
      | true => exact absurd ⟨rfl, rfl, rfl⟩ h

theorem reopen_unsettled {b : ExportAnswers} (hopened : b.reopened = true) (hsought : b.sought = false)
    (hclosed : b.reclosed = false) : Unsettled (reopen b) := by
  refine ⟨.closing (.closed .log false), ?_, rfl⟩
  simp [reopen, hopened, hsought, hclosed]

theorem exportHistoryFiles_unsettled {hmac : Hmac} {key : Bytes} {b : ExportAnswers}
    (h : ¬ ExportCloses b) : Unsettled (exportHistoryFiles hmac key true b) := by
  unfold exportHistoryFiles
  rw [if_neg (by decide)]
  by_cases hclose : b.close.closed = true ∧ b.close.synced = true ∧ b.close.flushed = true
  · have hreopen : b.reopened = true ∧ b.sought = false ∧ b.reclosed = false := by
      simpa [ExportCloses, hclose] using h
    have hdone : (closeLog true b.close).value = (true, false) := by
      obtain ⟨hclosed, hsynced, hflushed⟩ := hclose
      simp [closeLog, finish, hclosed, hsynced, hflushed]
    refine Unsettled.after ?_
    rw [hdone]
    refine Unsettled.after (Unsettled.after (Unsettled.bind ?_ _))
    exact reopen_unsettled hreopen.1 hreopen.2.1 hreopen.2.2
  · exact (closeLog_unsettled hclose).bind _

theorem export_unsettled {w : Worker} {b : Answers} (hexporting : w.exporting b = true)
    (hcloses : ¬ ExportCloses b.exporting) : Unsettled (w.exportRows s b) := by
  have hguard : (((w.health.mounted = true ∧ w.health.ejected = false) ∧ w.health.readOnly = false) ∧
      w.health.failed = false) ∧ w.file = true ∧ b.flush.flushed = true ∧ b.flush.synced = true := by
    simpa [exporting, and_assoc] using hexporting
  obtain ⟨hopen, hfile, hflushed, hsynced⟩ := hguard
  have hflush := (flush_keeps (T := True) w b.flush).returned
  unfold exportRows
  rw [if_neg (by simp [hopen])]
  refine Unsettled.after ?_
  generalize (w.flush b.flush).value = v at hflush ⊢
  obtain ⟨flushed, w₁⟩ := v
  obtain rfl : flushed = true := by simpa [hfile, hflushed, hsynced] using hflush.result
  dsimp only
  rw [if_neg (by decide), hflush.file.trans hfile]
  exact (exportHistoryFiles_unsettled hcloses).bind _

/-- An iteration that is not tidy logs a failure. -/
theorem iterate_unsettled {w : Worker} {t : Turn} (h : ¬ Tidy s w t) : Unsettled (w.iterate s t) := by
  obtain ⟨hawake, hbreak⟩ := Classical.not_imp.mp h
  unfold iterate
  rw [if_neg (by simp [hawake])]
  refine Unsettled.after (Unsettled.bind ?_ _)
  generalize (w.prepare s t).value = w₁ at hbreak ⊢
  unfold receive
  cases hmessage : t.message with
  | none => exact absurd trivial (by simpa only [hmessage] using hbreak)
  | some m =>
    rw [hmessage] at hbreak
    cases m with
    | Record r =>
      obtain ⟨hfull, hclosed⟩ := Classical.not_imp.mp hbreak
      exact record_unsettled hfull (by simpa using hclosed)
    | Export =>
      obtain ⟨hexporting, hcloses⟩ := Classical.not_imp.mp hbreak
      exact (export_unsettled hexporting hcloses).bind _
    | Clear =>
      obtain ⟨hclearing, hrest⟩ := Classical.not_imp.mp hbreak
      obtain ⟨hfile, hclosed⟩ := Classical.not_imp.mp hrest
      exact clear_unsettled hclearing hfile (by simpa using hclosed)
    | Save state => exact absurd trivial hbreak
    | BackupIgnores state => exact absurd trivial hbreak
    | Sleep state => exact absurd trivial hbreak
    | Eject => exact absurd trivial hbreak
    | Diagnostics text => exact absurd trivial hbreak
    | Sound => exact absurd trivial hbreak

/-- When an eject has reported success, every close and every repair since boot
has succeeded exactly if no iteration closed the log in vain. -/
theorem safe_to_remove (s : Firmware) (a : BootAnswers) (turns : List Turn)
    (hejected : (run s a turns).value.health.ejected = true)
    (hsafe : (run s a turns).value.health.ejectFailed = false) :
    (∀ e ∈ (run s a turns).log, e.settled = true) ↔
      ∀ v ∈ Runs.visited (next s) (boot a) turns, Tidy s v.1.value v.2 := by
  constructor
  · intro hsettled v hv
    by_contra hbreak
    obtain ⟨e, he, hfailed⟩ := iterate_unsettled hbreak
    exact absurd (hsettled e (mem_log_run hv he)) (by simp [hfailed])
  · intro htidy
    exact (told_run a fun _ => htidy).safe trivial hejected hsafe

end Eject

/-! ## One card -/

/-- A firmware whose hashes fail, which nothing below needs. -/
def plainFirmware : Firmware where
  pack := Vector.replicate 6 48
  id := List.replicate 32 97
  hmac := fun _ _ => none
  sha256 := fun _ => none

/-- The recovery of a card without logs is over after one iteration. -/
def recovered : Turn := { passes := [{}] }

def ejecting : Turn := { message := some .Eject }

/-- An export whose `fclose` of the log fails. -/
def failedExport : Turn :=
  { message := some .Export, answers.exporting.close.closed := false }

/-- An eject in the course of the recovery, with a deferred backup. -/
theorem card_left_alone_checking :
    ∃ earlier failed, (∀ result, .ejected result ∉ earlier) ∧
      ∀ later, let x := run plainFirmware {} ([{ message := some (.BackupIgnores {}) }, ejecting] ++ later)
        x.log = earlier ++ [.ejected failed] ∧ x.value.file = false ∧
          x.value.recovery.active = false ∧ x.value.health.ejected = true ∧
          x.value.health.ejectFailed = failed :=
  card_left_alone plainFirmware {} [{ message := some (.BackupIgnores {}) }, ejecting] (by decide)

theorem safe_to_remove_plain :
    (∀ e ∈ (run plainFirmware {} [recovered, { message := some .Clear }, ejecting]).log,
      e.settled = true) ↔
      ∀ v ∈ Runs.visited (next plainFirmware) (boot {})
        [recovered, { message := some .Clear }, ejecting], Tidy plainFirmware v.1.value v.2 :=
  safe_to_remove plainFirmware {} [recovered, { message := some .Clear }, ejecting]
    (by decide) (by decide +kernel)

/-- The writer could not be closed for an export, and the eject after it says that
the card is safe to remove. -/
theorem unsafe_removal :
    let x := run plainFirmware {} [recovered, failedExport, ejecting]
    x.value.health.ejected = true ∧ x.value.health.ejectFailed = false ∧
      .closing (.closed .log false) ∈ x.log := by
  decide

end Worker

end Hound
