import Hound.App.Device
import Hound.App.Slip
import Hound.Storage.EjectSafety
import Hound.Storage.ExportCompletes

/-!
# The status of an eject

The panel says that the card can be removed only once the storage task has let go of
it for good. A tap is answered as soon as the eject has been handled.
-/

namespace Hound

open Worker (Message Answers BootAnswers Turn Retired)

def Worker.Message.isEject : Message → Bool
  | .Eject => true
  | _ => false

/-- The storage task holds an eject. -/
def Stage.ejects : Stage → Bool
  | .handling m => m.isEject
  | _ => false

namespace Device

/-- An eject is on its way. -/
def ejecting (d : Device) : Bool := d.app.queue.any Message.isEject || d.stage.ejects

/-- What the storage task does in a step. -/
def worked (s : Firmware) (d : Device) (i : Input) : List WorkerEvent :=
  match d.stage, i with
  | .starting, .mount a => (Worker.boot a).log
  | .preparing, .prepare t => (d.worker.prepare s t).log
  | .handling m, .handle a => (d.worker.handle s m a).log
  | .idling, .idle t => (d.worker.idle t).log
  | _, _ => []

/-! ## A card that was let go of -/

/-- The storage task has let go of the card. -/
structure Parked (failed : Bool) (d : Device) : Prop where
  retired : Retired failed d.worker
  stage : d.stage ≠ .starting

variable {p : Platform} {s : Firmware} {d : Device} {failed : Bool}

theorem work_parked (h : Parked failed d) (i : Input) : Parked failed (d.work s i) ∧ d.worked s i = [] := by
  have hkeeps : ∀ {x : WorkerIo Worker} {stage : Stage}, Logged.Silent x (Retired failed) → stage ≠ .starting →
      Parked failed { d with worker := x.value, stage } ∧ x.log = [] := fun hx hstage =>
    ⟨⟨hx.returned, hstage⟩, hx.log_eq_nil⟩
  unfold work worked
  cases hstage : d.stage with
  | starting => exact absurd hstage h.stage
  | preparing =>
    cases i with
    | prepare t => exact hkeeps (h.retired.prepare t) nofun
    | _ => exact ⟨h, rfl⟩
  | receiving =>
    cases i with
    | receive =>
      refine ⟨?_, rfl⟩
      change Parked failed d.receive
      unfold receive
      split
      · exact ⟨h.retired, nofun⟩
      · exact ⟨h.retired, nofun⟩
    | _ => exact ⟨h, rfl⟩
  | handling m =>
    cases i with
    | handle a =>
      refine hkeeps (h.retired.handle m a) ?_
      split <;> exact nofun
    | _ => exact ⟨h, rfl⟩
  | idling =>
    cases i with
    | idle t =>
      have hidle : d.worker.idle t = pure d.worker := h.retired.idle t
      dsimp only
      rw [hidle]
      exact ⟨⟨h.retired, nofun⟩, rfl⟩
    | _ => exact ⟨h, rfl⟩
  | asleep => exact ⟨h, rfl⟩

theorem step_parked (h : Parked failed d) (i : Input) : Parked failed (step p s d i) := by
  cases i with
  | app j =>
    cases j with
    | taken => exact h
    | _ => exact ⟨h.retired, h.stage⟩
  | _ =>
    unfold step
    dsimp only
    split
    · exact (work_parked h _).1
    · exact h

/-! ## Where an eject stands -/

/-- What the view shows of an eject is what has become of it. -/
structure Shown (x : Slip) (q : Phase) (going : Bool) (h : Health) : Prop where
  safe : x.ejectStatus = .Safe → h.ejected = true ∧ h.ejectFailed = false
  failed : x.ejectStatus = .Failed → h.ejected = true ∧ h.ejectFailed = true
  asks : x.asksEject = true → x.ejectStatus = .Ejecting ∧ x.demo = false ∧ (q = .button ∨ q = .serve)
  going : x.ejectStatus = .Ejecting → x.asksEject = true ∨ going = true ∨ h.ejected = true

section Shown

variable {x y : Slip} {q q' : Phase} {going : Bool} {h h' : Health}

/-- A step that changes neither the slip's eject nor what is on its way. -/
theorem Shown.keep (hs : Shown x q going h) (hstatus : y.ejectStatus = x.ejectStatus) (hasks : y.asksEject = x.asksEject)
    (hdemo : y.demo = x.demo)
    (hturn : x.asksEject = true → q = .button ∨ q = .serve → q' = .button ∨ q' = .serve) : Shown y q' going h := by
  refine ⟨fun hsafe => hs.safe (hstatus.symm.trans hsafe), fun hfailed => hs.failed (hstatus.symm.trans hfailed),
    fun hasked => ?_, fun hejecting => ?_⟩
  · obtain ⟨hejecting, hreal, hq⟩ := hs.asks (hasks.symm.trans hasked)
    exact ⟨hstatus.trans hejecting, hdemo.trans hreal, hturn (hasks.symm.trans hasked) hq⟩
  · rw [hasks]
    exact hs.going (hstatus.symm.trans hejecting)

/-- Outside these phases no eject is asked for. -/
theorem Shown.unasked (hs : Shown x q going h) (hbutton : q ≠ .button) (hserve : q ≠ .serve) : x.asksEject = false := by
  rw [← Bool.not_eq_true]
  intro hasked
  exact (hs.asks hasked).2.2.elim hbutton hserve

theorem Shown.requestEject (hs : Shown x .button going h) : Shown x.requestEject .button going h := by
  have hplain : ∀ status : EjectStatus, status ≠ .Safe → status ≠ .Failed → status ≠ .Ejecting →
      x.asksEject = false → Shown { x with ejectStatus := status } .button going h :=
    fun status hsafe hfailed hejecting hasks => ⟨fun h => absurd h hsafe, fun h => absurd h hfailed,
      fun hasked => Bool.noConfusion (hasks.symm.trans hasked), fun h => absurd h hejecting⟩
  unfold Slip.requestEject
  split
  · rename_i hdemo
    refine hplain .Demo nofun nofun nofun ?_
    rw [← Bool.not_eq_true]
    exact fun hasked => Bool.noConfusion ((hs.asks hasked).2.1.symm.trans hdemo)
  rename_i hreal
  rw [Bool.not_eq_true] at hreal
  split
  · exact hs
  rename_i hover
  split
  · refine hplain .NoCard nofun nofun nofun ?_
    rw [← Bool.not_eq_true]
    exact fun hasked => hover (.inl (hs.asks hasked).1)
  · exact ⟨nofun, nofun, fun _ => ⟨rfl, hreal, .inl rfl⟩, fun _ => .inl rfl⟩

theorem Shown.touch (hs : Shown x .touch going h) (hw : Slip.Wished x y) : Shown y .button going h := by
  have hasks := hs.unasked nofun nofun
  have hstart : Shown x .button going h :=
    hs.keep rfl rfl rfl fun hasked => Bool.noConfusion (hasks.symm.trans hasked)
  cases hw with
  | switched hswitched =>
    rw [hswitched]
    exact ⟨hs.safe, hs.failed, fun hasked => Bool.noConfusion (hasks.symm.trans hasked), hs.going⟩
  | touched htouched =>
    induction htouched with
    | refl => exact hstart
    | tail _ hwish ih =>
      cases hwish with
      | eject => exact ih.requestEject
      | export' =>
        have hother : ∀ z : Slip, z.requestExport.ejectStatus = z.ejectStatus ∧
            z.requestExport.asksEject = z.asksEject ∧ z.requestExport.demo = z.demo := by
          intro z
          unfold Slip.requestExport
          repeat' split
          all_goals exact ⟨rfl, rfl, rfl⟩
        obtain ⟨hstatus, hasked, hdemo⟩ := hother ‹Slip›
        exact ih.keep hstatus hasked hdemo fun _ hq => hq

/-- What a poll shows of an eject. -/
theorem poll_eject (x : Slip) (h : Health) :
    (x.poll (polled h)).ejectStatus =
        (if !x.demo && h.ejected then (if h.ejectFailed then .Failed else .Safe) else x.ejectStatus) ∧
      (x.poll (polled h)).asksEject = x.asksEject ∧ (x.poll (polled h)).demo = x.demo := by
  have hexport : ∀ (z : Slip) (completed rows : UInt32), (z.exportProgress completed rows).ejectStatus = z.ejectStatus ∧
      (z.exportProgress completed rows).asksEject = z.asksEject ∧ (z.exportProgress completed rows).demo = z.demo := by
    intro z completed rows
    unfold Slip.exportProgress
    split <;> exact ⟨rfl, rfl, rfl⟩
  have heject : ∀ z : Slip,
      (z.ejectProgress h.ejected h.ejectFailed).ejectStatus =
          (if !z.demo && h.ejected then (if h.ejectFailed then .Failed else .Safe) else z.ejectStatus) ∧
        (z.ejectProgress h.ejected h.ejectFailed).asksEject = z.asksEject ∧
        (z.ejectProgress h.ejected h.ejectFailed).demo = z.demo := by
    intro z
    unfold Slip.ejectProgress
    split <;> exact ⟨rfl, rfl, rfl⟩
  obtain ⟨hstatus, hasks, hdemo⟩ := hexport
    (((x.readCard (polled h)).ejectProgress h.ejected h.ejectFailed).readHealth (polled h)) h.exports h.exportRows
  obtain ⟨hstatus', hasks', hdemo'⟩ := heject (x.readCard (polled h))
  exact ⟨hstatus.trans hstatus', hasks.trans hasks', hdemo.trans hdemo'⟩

theorem Shown.rest (hs : Shown x .rest going h) : Shown (x.poll (polled h)) .head going h := by
  obtain ⟨hstatus, hasks, hdemo⟩ := poll_eject x h
  have hnone := hs.unasked nofun nofun
  cases hover : !x.demo && h.ejected with
  | false =>
    rw [hover, if_neg Bool.false_ne_true] at hstatus
    exact hs.keep hstatus hasks hdemo fun hasked => Bool.noConfusion (hnone.symm.trans hasked)
  | true =>
    rw [hover, if_pos rfl] at hstatus
    have hejected : h.ejected = true := (Bool.and_eq_true_iff.mp hover).2
    refine ⟨fun hsafe => ⟨hejected, ?_⟩, fun hfailed => ⟨hejected, ?_⟩, fun hasked => ?_, fun _ => .inr (.inr hejected)⟩
    · rw [hstatus] at hsafe
      split at hsafe
      · exact EjectStatus.noConfusion hsafe
      · rename_i hgood
        exact Bool.not_eq_true _ ▸ hgood
    · rw [hstatus] at hfailed
      split at hfailed
      · rename_i hbad
        exact hbad
      · exact EjectStatus.noConfusion hfailed
    · exact Bool.noConfusion (hnone.symm.trans (hasks.symm.trans hasked))

/-- The storage task goes on. -/
theorem Shown.onward (hs : Shown x q going h) {going' : Bool} (hgoing : going = true → going' = true ∨ h'.ejected = true)
    (hover : h.ejected = true → h'.ejected = true ∧ h'.ejectFailed = h.ejectFailed) : Shown x q going' h' := by
  refine ⟨fun hsafe => ?_, fun hfailed => ?_, hs.asks, fun hejecting => ?_⟩
  · obtain ⟨hejected, hgood⟩ := hs.safe hsafe
    exact ⟨(hover hejected).1, (hover hejected).2.trans hgood⟩
  · obtain ⟨hejected, hbad⟩ := hs.failed hfailed
    exact ⟨(hover hejected).1, (hover hejected).2.trans hbad⟩
  · rcases hs.going hejecting with hasks | hgoes | hejected
    · exact .inl hasks
    · exact .inr (hgoing hgoes)
    · exact .inr (.inr (hover hejected).1)

end Shown

/-! ## The steps of the application -/

section App

variable {a b c : App} {q : Phase} {h : Health}

theorem ejects_posted (a : App) : a.queue.any Message.isEject = a.posted.any Message.isEject := by
  unfold App.posted
  rw [List.any_filter]
  refine List.any_congr rfl fun m => ?_
  cases m <;> rfl

theorem export_offered {asked : Bool} (ho : App.Offered asked .Export Slip.exportQueued a b) :
    b.view.slip.ejectStatus = a.view.slip.ejectStatus ∧ b.view.slip.asksEject = a.view.slip.asksEject ∧
      b.view.slip.demo = a.view.slip.demo ∧ b.queue.any Message.isEject = a.queue.any Message.isEject := by
  rw [ejects_posted, ejects_posted]
  obtain ⟨-, hoffered⟩ := ho
  split at hoffered
  · obtain ⟨accepted, hslip, hposted⟩ := hoffered
    have hejects : b.posted.any Message.isEject = a.posted.any Message.isEject := by
      rw [hposted, List.any_append]
      cases accepted <;> exact Bool.or_false _
    rw [hslip]
    unfold Slip.exportQueued
    split <;> exact ⟨rfl, rfl, rfl, hejects⟩
  · rw [hoffered.slip, hoffered.posted]
    exact ⟨rfl, rfl, rfl, rfl⟩

theorem Shown.app {i : App.Input} {held : Bool}
    (hs : Shown a.view.slip a.phase (a.queue.any Message.isEject || held) h) (hw : App.Writes a b i)
    (hpolled : ∀ r, i = .rest r → r.polled = polled h) :
    Shown b.view.slip b.phase (b.queue.any Message.isEject || held) h := by
  have hqueue : ∀ {a b : App}, b.posted = a.posted → b.queue.any Message.isEject = a.queue.any Message.isEject := by
    intro a b hposted
    rw [ejects_posted, ejects_posted, hposted]
  cases hw with
  | aside hslip hposted hphase =>
    rw [hslip, hqueue hposted]
    refine hs.keep rfl rfl rfl fun _ hturn => ?_
    rcases hphase with hsame | ⟨-, hserve⟩ | ⟨hbutton, hserve⟩
    · rw [hsame]
      exact hturn
    · exact .inr hserve
    · exact absurd hturn (not_or.mpr ⟨hbutton, hserve⟩)
  | touch hwishing hphase hturn =>
    rw [hturn] at hs
    rw [hphase, hqueue hwishing.posted]
    exact hs.touch hwishing.slip
  | rest hslip hposted hphase hturn =>
    rw [hturn] at hs
    rw [hphase, hqueue hposted, hslip, hpolled _ rfl]
    exact hs.rest
  | @serve _ b₁ b₂ hexport heject hslip hposted hphase =>
    obtain ⟨hstatus₁, hasks₁, hdemo₁, hqueue₁⟩ := export_offered hexport
    change b₁.view.slip.ejectStatus = a.view.slip.ejectStatus at hstatus₁
    change b₁.view.slip.asksEject = false at hasks₁
    change b₁.view.slip.demo = a.view.slip.demo at hdemo₁
    change b₁.queue.any Message.isEject = a.queue.any Message.isEject at hqueue₁
    rw [hphase, hslip, hqueue hposted]
    obtain ⟨-, hoffered⟩ := heject
    split at hoffered
    · rename_i hasked
      obtain ⟨hejecting, -, -⟩ := hs.asks (Bool.and_eq_true_iff.mp hasked).1
      obtain ⟨accepted, hqueued, hgone⟩ := hoffered
      cases accepted with
      | true =>
        have hsame : b₂.view.slip = b₁.view.slip := by
          rw [hqueued]
          unfold Slip.ejectQueued
          exact if_neg fun hfull => Bool.noConfusion hfull.2
        have hgoes : b₂.queue.any Message.isEject = true := by
          rw [ejects_posted, hgone, List.any_append]
          exact Bool.or_true _
        rw [hsame, hgoes, Bool.true_or]
        refine ⟨fun hsafe => ?_, fun hfailed => ?_, fun h => Bool.noConfusion (hasks₁.symm.trans h), fun _ => .inr (.inl rfl)⟩
        · exact EjectStatus.noConfusion (hejecting.symm.trans (hstatus₁.symm.trans hsafe))
        · exact EjectStatus.noConfusion (hejecting.symm.trans (hstatus₁.symm.trans hfailed))
      | false =>
        have hfull : b₂.view.slip.ejectStatus = .QueueFull ∧ b₂.view.slip.asksEject = b₁.view.slip.asksEject := by
          rw [hqueued]
          unfold Slip.ejectQueued
          rw [if_pos ⟨hstatus₁.trans hejecting, rfl⟩]
          exact ⟨rfl, rfl⟩
        refine ⟨fun hsafe => ?_, fun hfailed => ?_, fun h => ?_, fun hgoes => ?_⟩
        · exact EjectStatus.noConfusion (hfull.1.symm.trans hsafe)
        · exact EjectStatus.noConfusion (hfull.1.symm.trans hfailed)
        · exact Bool.noConfusion (hasks₁.symm.trans (hfull.2.symm.trans h))
        · exact EjectStatus.noConfusion (hfull.1.symm.trans hgoes)
    · rename_i hunasked
      rw [hqueue hoffered.posted, hqueue₁, hoffered.slip]
      refine ⟨fun hsafe => hs.safe (hstatus₁.symm.trans hsafe), fun hfailed => hs.failed (hstatus₁.symm.trans hfailed),
        fun h => Bool.noConfusion (hasks₁.symm.trans h), fun hgoes => ?_⟩
      rcases hs.going (hstatus₁.symm.trans hgoes) with hasked | hgone
      · refine absurd ?_ hunasked
        rw [hasked, (hs.asks hasked).2.1]
        rfl
      · exact .inr hgone

end App

/-! ## The run -/

/-- The view shows what became of the eject, and an ejected card is left alone. -/
structure Told (d : Device) : Prop where
  shown : Shown d.app.view.slip d.app.phase d.ejecting d.worker.health
  parked : d.worker.health.ejected = true → Parked d.worker.health.ejectFailed d

theorem told_app (h : Told d) (i : App.Input) : Told (step p s d (.app i)) := by
  cases i with
  | taken => exact h
  | _ =>
    refine ⟨?_, fun hejected => ⟨(h.parked hejected).retired, (h.parked hejected).stage⟩⟩
    refine h.shown.app (App.step_writes d.app (by exact nofun)) fun r hr => ?_
    exact polled_of_look hr

/-- A step of the storage task while the card is in use. -/
theorem told_used (h : Told d) {e : Device} (hin : e.worker.health.ejected = false) (hnot : d.worker.health.ejected = false)
    (hview : e.app.view = d.app.view) (hphase : e.app.phase = d.app.phase) (hgoing : d.ejecting = true → e.ejecting = true) :
    Told e := by
  refine ⟨?_, fun hejected => Bool.noConfusion (hin.symm.trans hejected)⟩
  rw [hview, hphase]
  exact h.shown.onward (fun hgoes => .inl (hgoing hgoes)) fun hejected => Bool.noConfusion (hnot.symm.trans hejected)

theorem boot_used (a : BootAnswers) : (Worker.boot a).value.health.ejected = false := by
  unfold Worker.boot
  dsimp only
  split
  · rfl
  · simp only [Logged.value_bind]
    split <;> rfl

/-- An eject is the only message that parks the card. -/
theorem handled_told (h : Told d) (hnot : d.worker.health.ejected = false) {m : Message} (hstage : d.stage = .handling m)
    (a : Answers) : Told (d.handled s m a) := by
  have hgoes : d.ejecting = (d.app.queue.any Message.isEject || m.isEject) := by
    unfold ejecting
    rw [hstage]
    rfl
  by_cases heject : m = .Eject
  · subst heject
    have hretired : Retired (d.worker.eject a).value.health.ejectFailed (d.worker.eject a).value :=
      (Worker.eject_publishes (T := False) (Worker.sound_pure hnot).toInUse a).1.retired
    refine ⟨?_, fun _ => ⟨hretired, ?_⟩⟩
    · exact h.shown.onward (fun _ => .inr hretired.ejected) fun hejected => Bool.noConfusion (hnot.symm.trans hejected)
    · change (if (d.worker.eject a).value.asleep then Stage.asleep else .idling) ≠ .starting
      split <;> exact nofun
  · have hin : (d.worker.handle s m a).value.health.ejected = false := by
      have hreceived := Worker.sound_receive (T := False) (s := s) (t := { message := some m, answers := a }) hnot
        (fun hm => heject (Option.some.inj hm)) False.elim
      exact hreceived.used
    refine told_used h hin hnot rfl rfl fun hgoing => ?_
    rw [hgoes] at hgoing
    unfold ejecting handled
    cases m with
    | Eject => exact absurd rfl heject
    | _ =>
      rw [Bool.or_eq_true] at hgoing ⊢
      exact .inl (hgoing.resolve_right Bool.false_ne_true)

theorem work_told (h : Told d) (i : Input) : Told (d.work s i) := by
  cases hejected : d.worker.health.ejected with
  | true =>
    obtain ⟨hparked, -⟩ := work_parked (s := s) (h.parked hejected) i
    refine ⟨?_, fun _ => by rw [hparked.retired.result]; exact hparked⟩
    obtain ⟨hview, hphase⟩ := work_app s d i
    rw [hview, hphase]
    exact h.shown.onward (fun _ => .inr hparked.retired.ejected) fun _ =>
      ⟨hparked.retired.ejected, hparked.retired.result⟩
  | false =>
    -- between two messages the task holds no eject
    have hbetween : ∀ {worker : Worker} {stage : Stage}, d.stage.ejects = false → worker.health.ejected = false →
        Told { d with worker, stage } := by
      intro worker stage hholds hin
      refine told_used h hin hejected rfl rfl fun hgoing => ?_
      unfold ejecting at hgoing ⊢
      rw [hholds, Bool.or_false] at hgoing
      exact Bool.or_eq_true_iff.mpr (.inl hgoing)
    unfold work
    cases hstage : d.stage with
    | starting =>
      cases i with
      | mount a => exact hbetween (by rw [hstage]; rfl) (boot_used a)
      | _ => exact h
    | preparing =>
      cases i with
      | prepare t => exact hbetween (by rw [hstage]; rfl) (Worker.sound_prepare (T := False) hejected t).used
      | _ => exact h
    | receiving =>
      cases i with
      | receive =>
        change Told d.receive
        unfold receive
        split
        · exact hbetween (by rw [hstage]; rfl) hejected
        · rename_i m queue hqueue
          refine told_used h hejected hejected rfl rfl fun hgoing => ?_
          unfold ejecting at hgoing ⊢
          rw [hqueue, hstage] at hgoing
          rw [List.any_cons, Bool.or_comm m.isEject] at hgoing
          exact (Bool.or_false _).symm.trans hgoing
      | _ => exact h
    | handling m =>
      cases i with
      | handle a => exact handled_told h hejected hstage a
      | _ => exact h
    | idling =>
      cases i with
      | idle t =>
        refine hbetween (by rw [hstage]; rfl) ?_
        exact (Worker.idle_keeps (T := False) (w := d.worker) t).returned.ejected.trans hejected
      | _ => exact h
    | asleep => exact h

theorem step_told (h : Told d) (i : Input) : Told (step p s d i) := by
  cases i with
  | app j => exact told_app h j
  | _ =>
    unfold step
    dsimp only
    split
    · exact work_told h _
    · exact h

theorem run_told (p : Platform) (s : Firmware) (state : State) (b : App.Boot) (inputs : List Input) :
    Told (run p s state b inputs) := by
  refine Runs.invariant Told (fun _ i h => step_told h i) ?_ inputs
  obtain ⟨hslip, -, -⟩ := App.boot_slip p state b
  have hin : (power p state b).worker.health.ejected = false := by
    unfold power
    split <;> rfl
  refine ⟨?_, fun hejected => Bool.noConfusion (hin.symm.trans hejected)⟩
  rw [show (power p state b).app.view.slip = ({} : View).slip from hslip]
  exact ⟨nofun, nofun, nofun, nofun⟩

/-! ## What the panel says -/

/-- The card is no longer used, and the next step of the storage task does nothing to it. -/
structure Released (s : Firmware) (failed : Bool) (d : Device) : Prop where
  ejected : d.worker.health.ejected = true
  result : d.worker.health.ejectFailed = failed
  file : d.worker.file = false
  recovery : d.worker.recovery.Idle
  untouched : ∀ i, d.worked s i = []

theorem Parked.released (h : Parked failed d) : Released s failed d :=
  ⟨h.retired.ejected, h.retired.result, h.retired.file, h.retired.recovery, fun i => (work_parked h i).2⟩

/-- The card can be removed once the panel says so, and whatever happens next nothing
touches it again. A tap is answered by the next poll after the eject has been handled. -/
theorem eject_shown_truthfully (p : Platform) (s : Firmware) (state : State) (b : App.Boot) (inputs : List Input) :
    (∀ failed : Bool,
      (run p s state b inputs).app.view.ejectStatus = (if failed then .Failed else .Safe) →
      ∀ more, Released s failed (run p s state b (inputs ++ more))) ∧
      ∀ r, (run p s state b inputs).app.phase = .rest → (run p s state b inputs).app.view.demo = false →
        (run p s state b inputs).ejecting = false →
        (run p s state b (inputs ++ [.app (.rest r)])).app.view.ejectStatus ≠ .Ejecting := by
  have htold := run_told p s state b inputs
  refine ⟨fun failed hshown more => ?_, fun r hturn hreal hnone => ?_⟩
  · have hover : (run p s state b inputs).worker.health.ejected = true ∧
        (run p s state b inputs).worker.health.ejectFailed = failed := by
      cases failed with
      | true => exact htold.shown.failed hshown
      | false => exact htold.shown.safe hshown
    have hparked : Parked failed (run p s state b inputs) := by
      have hpark := htold.parked hover.1
      rw [hover.2] at hpark
      exact hpark
    rw [run, Runs.run_append]
    exact (Runs.invariant (Parked failed) (fun _ i h => step_parked h i) hparked more).released
  · have hstep : run p s state b (inputs ++ [.app (.rest r)]) = step p s (run p s state b inputs) (.app (.rest r)) :=
      Runs.run_concat _ _ _ _
    have hslip := rest_slip (p := p) (s := s) hturn r
    rw [hstep]
    change (step p s (run p s state b inputs) (.app (.rest r))).app.view.slip.ejectStatus ≠ .Ejecting
    obtain ⟨hstatus, -, -⟩ := poll_eject (run p s state b inputs).app.view.slip (run p s state b inputs).worker.health
    have hdemo : (run p s state b inputs).app.view.slip.demo = false := hreal
    rw [hslip, hstatus, hdemo]
    intro hgoes
    split at hgoes
    · split at hgoes <;> exact EjectStatus.noConfusion hgoes
    · rename_i hused
      rcases htold.shown.going hgoes with hasked | hgone | hejected
      · exact (htold.shown.asks hasked).2.2.elim (fun h => Phase.noConfusion (hturn.symm.trans h))
          fun h => Phase.noConfusion (hturn.symm.trans h)
      · exact Bool.noConfusion (hnone.symm.trans hgone)
      · exact hused hejected

/-- An eject is asked for and handled, and the next poll shows what it came to. -/
def ejection : List Input := mounting ++ rowTapped 150 ++ turn {} ++ turn {} ++ (App.iteration 9000 none).map .app

/-- The panel says that the card can be removed, and no iteration after it touches the card. -/
theorem ejection_releases : (run App.bare OnCard.rowFirmware App.welcomed {} ejection).app.view.ejectStatus = .Safe ∧
    Released OnCard.rowFirmware false (run App.bare OnCard.rowFirmware App.welcomed {} (ejection ++ turn {})) := by
  have hsafe : (run App.bare OnCard.rowFirmware App.welcomed {} ejection).app.view.ejectStatus = .Safe := by decide +kernel
  exact ⟨hsafe, (eject_shown_truthfully App.bare OnCard.rowFirmware App.welcomed {} ejection).1 false hsafe (turn {})⟩

end Device

end Hound
