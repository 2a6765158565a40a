import Hound.App.AppTask
import Hound.App.Slip
import Hound.Storage.WorkerSteps

/-!
# The two tasks

The application's task and the storage task, with the queue and the health between
them. Either may take its next step at any time. What the application reads of the
health is what the storage task has published by then.
-/

namespace Hound

open Worker (Message Answers BootAnswers Turn)

/-- Where the storage task is in its loop. It holds the message it handles. -/
inductive Stage where
  | starting
  | preparing
  | receiving
  | handling (m : Message)
  | idling
  | asleep

structure Device where
  app : App
  worker : Worker := {}
  stage : Stage := .starting

namespace Device

inductive Input where
  /-- A step of the application's task. -/
  | app (i : App.Input)
  | mount (a : BootAnswers)
  | prepare (t : Turn)
  | receive
  | handle (a : Answers)
  | idle (t : Turn)

/-! ## What the application reads -/

def polled (h : Health) : View.Polled :=
  { mounted := h.mounted, ejected := h.ejected, ejectFailed := h.ejectFailed, failed := h.failed
    checking := h.checking, readOnly := h.readOnly, exports := h.exports, exportRows := h.exportRows }

/-- The input with what it reads of `storage::health`. -/
def look (h : Health) : App.Input → App.Input
  | .packet r => .packet { r with checking := h.checking }
  | .serve s => .serve { s with checking := h.checking }
  | .rest r => .rest { r with
      polled := polled h, manualBackups := h.manualBackups, clears := h.clears, sleepFailed := h.sleepFailed }
  | i => i

theorem polled_of_look {h : Health} {i : App.Input} {r : Readings} (hlook : look h i = .rest r) :
    r.polled = polled h := by
  cases i with
  | rest r' =>
    cases hlook
    rfl
  | _ => cases hlook

theorem look_taken {h : Health} {i : App.Input} (htask : i ≠ .taken) : look h i ≠ .taken := by
  cases i with
  | taken => exact absurd rfl htask
  | _ => exact nofun

/-! ## Steps -/

/-- The storage task takes the message at the head of the queue, or waits in vain. -/
def receive (d : Device) : Device :=
  match d.app.queue with
  | [] => { d with stage := .idling }
  | m :: queue => { d with app := { d.app with queue }, stage := .handling m }

def handled (s : Firmware) (d : Device) (m : Message) (a : Answers) : Device :=
  let worker := (d.worker.handle s m a).value
  { d with worker, stage := if worker.asleep then .asleep else .idling }

/-- A step of the storage task, if it is its turn. -/
def work (s : Firmware) (d : Device) (i : Input) : Device :=
  match d.stage, i with
  | .starting, .mount a => { d with worker := (Worker.boot a).value, stage := .preparing }
  | .preparing, .prepare t => { d with worker := (d.worker.prepare s t).value, stage := .receiving }
  | .receiving, .receive => d.receive
  | .handling m, .handle a => d.handled s m a
  | .idling, .idle t => { d with worker := (d.worker.idle t).value, stage := .preparing }
  | _, _ => d

/-- Without a storage task only the application goes on. Taking a message is for the storage task. -/
def step (p : Platform) (s : Firmware) (d : Device) : Input → Device
  | .app .taken => d
  | .app i => { d with app := d.app.step p (look d.worker.health i) }
  | i => if d.app.started then d.work s i else d

/-- `app_main` up to its task: `start` has made the storage task, or has failed. -/
def power (p : Platform) (state : State) (b : App.Boot) : Device :=
  { app := (App.boot p state b).value
    worker := if b.started then {}
      else { health := { checking := false, failed := true, ignoreBackup := .Unavailable } } }

def run (p : Platform) (s : Firmware) (state : State) (b : App.Boot) (inputs : List Input) : Device :=
  Runs.run (step p s) (power p state b) inputs

/-- The storage task leaves the view as it is, and the turn in the loop. -/
theorem work_app (s : Firmware) (d : Device) (i : Input) :
    (d.work s i).app.view = d.app.view ∧ (d.work s i).app.phase = d.app.phase := by
  unfold work
  split
  case h_3 =>
    unfold receive
    split <;> exact ⟨rfl, rfl⟩
  all_goals exact ⟨rfl, rfl⟩

theorem step_view {p : Platform} {s : Firmware} {d : Device} {i : Input} (hi : ∀ j, i ≠ .app j) :
    (step p s d i).app.view = d.app.view := by
  cases i with
  | app j => exact absurd rfl (hi j)
  | _ =>
    unfold step
    dsimp only
    split
    · exact (work_app s d _).1
    · rfl

/-- The end of an iteration looks at what the storage task has published. -/
theorem rest_slip {p : Platform} {s : Firmware} {d : Device} (hturn : d.app.phase = .rest) (r : Readings) :
    (step p s d (.app (.rest r))).app.view.slip = d.app.view.slip.poll (polled d.worker.health) := by
  change (if d.app.phase = .rest then d.app.rest p _ else pure d.app : AppIo App).value.view.slip = _
  rw [if_pos hturn]
  exact (App.rest_slip d.app _).1

/-! ## One iteration of the storage task -/

/-- Uninterrupted, the steps of the storage task are an iteration of its loop. -/
theorem work_iterate (s : Firmware) (d : Device) (t : Turn) (hstage : d.stage = .preparing)
    (hawake : d.worker.asleep = false) (hmessage : t.message = d.app.queue.head?) :
    ((((d.work s (.prepare t)).work s .receive).work s (.handle t.answers)).work s (.idle t)).worker =
      (d.worker.iterate s t).value := by
  have hprepared : (d.worker.prepare s t).value.asleep = false := (Worker.prepare_asleep d.worker t).trans hawake
  have hprepare : d.work s (.prepare t) = { d with worker := (d.worker.prepare s t).value, stage := .receiving } := by
    unfold work
    rw [hstage]
  unfold Worker.iterate
  rw [hprepare, if_neg (by rw [hawake]; exact Bool.false_ne_true)]
  simp only [Logged.value_bind]
  generalize (d.worker.prepare s t).value = w at hprepared
  cases hqueue : d.app.queue with
  | nil =>
    rw [hqueue] at hmessage
    have hreceive : ({ d with worker := w, stage := .receiving } : Device).work s .receive =
        { d with worker := w, stage := .idling } := by
      change (match d.app.queue with | [] => _ | m :: queue => _) = _
      rw [hqueue]
    rw [hreceive, Worker.receive, hmessage]
    change (w.idle t).value = (if w.asleep = true then pure w else w.idle t).value
    rw [hprepared, if_neg Bool.false_ne_true]
  | cons m queue =>
    rw [hqueue] at hmessage
    have hreceive : ({ d with worker := w, stage := .receiving } : Device).work s .receive =
        { d with app := { d.app with queue }, worker := w, stage := .handling m } := by
      change (match d.app.queue with | [] => _ | m :: queue => _) = _
      rw [hqueue]
    rw [hreceive, Worker.receive, hmessage]
    change (work s { d with
        app := { d.app with queue }, worker := (w.handle s m t.answers).value
        stage := if (w.handle s m t.answers).value.asleep then .asleep else .idling } (.idle t)).worker =
      (if (w.handle s m t.answers).value.asleep then pure (w.handle s m t.answers).value
        else (w.handle s m t.answers).value.idle t).value
    cases hasleep : (w.handle s m t.answers).value.asleep with
    | true => rfl
    | false => rfl

/-! ## Plain runs -/

/-- An iteration of the storage task, when the application waits. -/
def turn (t : Turn) : List Input := [.prepare t, .receive, .handle t.answers, .idle t]

/-- The card is mounted, and nothing on it has to be repaired. -/
def mounting : List Input := .mount {} :: (turn { passes := [{}] } ++ turn {})

/-- On the fourth page of the settings the row at this height is tapped. -/
def rowTapped (y : Int) : List Input := (App.taps 1000 (App.toFourthPage ++ [(100, y)])).map .app

end Device

end Hound
