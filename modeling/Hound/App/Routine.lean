import Hound.App.AppTask
import Hound.Ui.Updates

/-!
# Routine calls

Most calls of the task hand messages over and change what the panel shows, and
nothing else. A State they hand over is what `save` makes of the task's variables,
outside the demo.
-/

namespace Hound

/-- The view follows what becomes of the message. -/
def Worker.Message.followed : Worker.Message → Bool
  | .Export | .Eject => true
  | _ => false

namespace App

open Worker (Message)

def posted (a : App) : List Message := a.queue.filter Message.followed

/-- What a routine call leaves as it is. -/
structure Routine (a b : App) : Prop where
  view : Quiet a.view b.view
  version : b.state.version = a.state.version
  calibration : b.state.calibration = a.state.calibration
  mealKey : b.state.mealKey = a.state.mealKey
  meals : b.meals = a.meals
  realPet : b.realPet = a.realPet
  phase : b.phase = a.phase
  posted : b.posted = a.posted

/-- What a routine call may hand over. -/
def Told (p : Platform) (a : App) : Message → Prop
  | .Save s | .BackupIgnores s => a.view.demo = false ∧ ∃ b, Routine a b ∧ s = b.assembled p
  | .Sleep s => a.view.demo = false ∧ validCurrent s = true
  | .Export | .Clear | .Eject => False
  | .Record _ | .Diagnostics _ | .Sound => True

variable {p : Platform} {a b c : App}

namespace Routine

theorem refl (a : App) : Routine a a := ⟨.refl _, rfl, rfl, rfl, rfl, rfl, rfl, rfl⟩

theorem trans (h : Routine a b) (h' : Routine b c) : Routine a c :=
  ⟨h.view.trans h'.view, h'.version.trans h.version, h'.calibration.trans h.calibration, h'.mealKey.trans h.mealKey,
    h'.meals.trans h.meals, h'.realPet.trans h.realPet, h'.phase.trans h.phase, h'.posted.trans h.posted⟩

/-- Only the view changes. -/
theorem shown {w : View} (h : Quiet a.view w) : Routine a { a with view := w } :=
  ⟨h, rfl, rfl, rfl, rfl, rfl, rfl, rfl⟩

theorem demo (h : Routine a b) : b.view.demo = a.view.demo := congrArg Base.demo h.view.base

theorem now (h : Routine a b) : b.view.now = a.view.now := h.view.now

end Routine

theorem Told.of_routine (h : Routine a b) : ∀ m, Told p b m → Told p a m
  | .Save _, ⟨hdemo, c, hc, hs⟩ => ⟨h.demo ▸ hdemo, c, h.trans hc, hs⟩
  | .BackupIgnores _, ⟨hdemo, c, hc, hs⟩ => ⟨h.demo ▸ hdemo, c, h.trans hc, hs⟩
  | .Sleep _, hs => ⟨h.demo ▸ hs.1, hs.2⟩
  | .Record _, _ => trivial
  | .Diagnostics _, _ => trivial
  | .Sound, _ => trivial

/-! ## Handing over -/

/-- A call that is routine. -/
abbrev Routinely (p : Platform) (a : App) (x : AppIo App) : Prop := x.Meets (Told p a) (Routine a)

theorem routinely_pure (h : Routine a b) : Routinely p a (pure b) := Logged.meets_pure h

theorem Routinely.bind {x : AppIo App} {f : App → AppIo App} (hx : Routinely p a x)
    (hf : ∀ b, Routine a b → Routinely p b (f b)) : Routinely p a (x >>= f) :=
  Logged.Meets.bind hx fun b hb => (hf b hb).mono (Told.of_routine hb) fun _ hc => hb.trans hc

/-- What comes before is routine. -/
theorem Routinely.after {x : AppIo App} (h : Routine a b) (hx : Routinely p b x) : Routinely p a x :=
  hx.mono (Told.of_routine h) fun _ hc => h.trans hc

/-- What comes after is routine. -/
theorem Routinely.then {x : AppIo App} {f : App → App} (hx : Routinely p a x) (hf : ∀ b, Routine a b → Routine b (f b)) :
    Routinely p a (x >>= fun b => pure (f b)) := hx.bind fun b hb => routinely_pure (hf b hb)

theorem send_meets {P : Message → Prop} {m : Message} (hm : P m) :
    (a.send m).Meets P fun r => ∃ queue, r.2 = { a with queue } ∧ (queue = a.queue ∨ queue = a.queue ++ [m]) := by
  unfold send
  refine .bind (Logged.meets_tell (Q := fun _ => True) (fun e he => ?_) trivial) fun _ _ => ?_
  · rw [List.mem_singleton.mp he]
    exact hm
  · split
    · exact Logged.meets_pure ⟨_, rfl, .inr rfl⟩
    · exact Logged.meets_pure ⟨a.queue, rfl, .inl rfl⟩

theorem sendSnapshot_meets {P : Message → Prop} {m : Message} (hm : P m) (claimed : Bool) :
    (a.sendSnapshot m claimed).Meets P
      fun r => ∃ queue, r.2 = { a with queue } ∧ (queue = a.queue ∨ queue = a.queue ++ [m]) := by
  unfold sendSnapshot
  split
  · exact send_meets hm
  · refine .bind (Logged.meets_tell (Q := fun _ => True) (fun e he => ?_) trivial) fun _ _ => Logged.meets_pure ⟨a.queue, rfl, .inl rfl⟩
    rw [List.mem_singleton.mp he]
    exact hm

/-- A queue that has grown by no message that is followed. -/
theorem routine_queue {queue : List Message} {m : Message} (hm : m.followed = false)
    (hqueue : queue = a.queue ∨ queue = a.queue ++ [m]) : Routine a { a with queue } := by
  refine ⟨.refl _, rfl, rfl, rfl, rfl, rfl, rfl, ?_⟩
  rcases hqueue with rfl | rfl
  · rfl
  · change (a.queue ++ [m]).filter Message.followed = a.queue.filter Message.followed
    rw [List.filter_append, List.filter_singleton, hm]
    exact List.append_nil _

theorem told_followed : ∀ {m : Message}, Told p a m → m.followed = false
  | .Save _, _ => rfl
  | .BackupIgnores _, _ => rfl
  | .Sleep _, _ => rfl
  | .Record _, _ => rfl
  | .Diagnostics _, _ => rfl
  | .Sound, _ => rfl

theorem send_routinely {m : Message} (hm : Told p a m) :
    (a.send m).Meets (Told p a) fun r => Routine a r.2 := by
  refine (send_meets hm).mono (fun _ h => h) ?_
  rintro r ⟨queue, hr, hqueue⟩
  rw [hr]
  exact routine_queue (told_followed hm) hqueue

theorem sendSnapshot_routinely {m : Message} (hm : Told p a m) (claimed : Bool) :
    (a.sendSnapshot m claimed).Meets (Told p a) fun r => Routine a r.2 := by
  refine (sendSnapshot_meets hm claimed).mono (fun _ h => h) ?_
  rintro r ⟨queue, hr, hqueue⟩
  rw [hr]
  exact routine_queue (told_followed hm) hqueue

theorem sound_routinely (a : App) : Routinely p a a.sound :=
  (send_routinely (m := .Sound) trivial).bind fun _ hr => Logged.meets_pure hr

theorem diagnostics_routinely (a : App) (report : Bytes) : Routinely p a (a.diagnostics report) :=
  (send_routinely (m := .Diagnostics report) trivial).bind fun _ hr => Logged.meets_pure hr

theorem append_routinely (a : App) (d : Detection) (token : Bytes) (checking : Bool) :
    Routinely p a (a.append d token checking) := by
  unfold append
  split
  · exact routinely_pure (.refl a)
  · exact (send_routinely (m := .Record _) trivial).bind fun _ hr => Logged.meets_pure hr

/-! ## Saves -/

theorem note_quiet (text : String) (v : View) : Quiet v (v.note text) := .of_eq rfl rfl rfl rfl

theorem routine_saves (saves : SaveRetry) : Routine a { a with saves } :=
  ⟨.refl _, rfl, rfl, rfl, rfl, rfl, rfl, rfl⟩

/-- The State that `save` keeps. -/
theorem routine_assembled (saves : SaveRetry) : Routine a { a with state := a.assembled p, saves } :=
  ⟨.refl _, rfl, rfl, rfl, rfl, rfl, rfl, rfl⟩

theorem save_routinely (a : App) (backup claimed : Bool) : Routinely p a (a.save p backup claimed) := by
  unfold save
  split
  · exact routinely_pure (.refl a)
  rename_i hdemo
  rw [Bool.not_eq_true] at hdemo
  dsimp only
  generalize (a.saves.backupRequested || backup) = requested
  have hkeeps := routine_assembled (p := p) (a := a) { a.saves with backupRequested := requested }
  have htold : Told p { a with state := a.assembled p, saves.backupRequested := requested }
      (if requested then .BackupIgnores (a.assembled p) else .Save (a.assembled p)) := by
    split
    · exact ⟨hdemo, _, .refl _, rfl⟩
    · exact ⟨hdemo, _, .refl _, rfl⟩
  refine .after hkeeps (Logged.Meets.bind (sendSnapshot_routinely htold claimed) ?_)
  rintro ⟨accepted, b⟩ hb
  change Routine _ b at hb
  have hsaves : Routine b { b with saves := b.saves.result b.view.now accepted } := routine_saves _
  refine Logged.meets_pure (hb.trans ?_)
  split
  · exact hsaves.trans (.shown (note_quiet _ _))
  · exact hsaves

theorem beginRadio_routine (a : App) (started : Bool) : Routine a (a.beginRadio started) := by
  unfold beginRadio
  split
  · exact .refl a
  · dsimp only
    split
    · exact ⟨.refl _, rfl, rfl, rfl, rfl, rfl, rfl, rfl⟩
    · exact ⟨note_quiet _ _, rfl, rfl, rfl, rfl, rfl, rfl, rfl⟩

theorem saveMeal_routinely (a : App) (d : Detection) (claimed : Category → Bool) :
    Routinely p a (a.saveMeal p d claimed) := by
  unfold saveMeal
  split
  · exact save_routinely a false _
  · exact routinely_pure (.refl a)

theorem soundAlert_routinely (a : App) (d : Detection) : Routinely p a (a.soundAlert p d) := by
  unfold soundAlert
  split
  · exact sound_routinely a
  · exact routinely_pure (.refl a)

theorem retry_routinely (a : App) (claimed : Bool) : Routinely p a (a.retry p claimed) := by
  unfold retry
  split
  · exact save_routinely a false claimed
  · exact routinely_pure (.refl a)

/-! ## The battery -/

theorem beep_routinely (a : App) (millivolts : Int) : Routinely p a (a.beep millivolts) := by
  unfold beep
  split
  · exact (sound_routinely a).then fun b _ => ⟨.refl _, rfl, rfl, rfl, rfl, rfl, rfl, rfl⟩
  · exact routinely_pure (.refl a)

theorem sleep_routinely (a : App) (r : Readings) : Routinely p a (a.sleep p r) := by
  unfold sleep
  split
  · rename_i hcritical
    have hdemo : a.view.demo = false := by
      rw [Bool.and_eq_true, Bool.and_eq_true, Bool.not_eq_true'] at hcritical
      exact hcritical.1.1
    have hpauses : Routine a { a with view := { a.view with paused := true }, radioPaused := true } :=
      ⟨.of_eq rfl rfl rfl rfl, rfl, rfl, rfl, rfl, rfl, rfl, rfl⟩
    have hends : ∀ (b : App) (sleeping : Bool) (text : String),
        Routine b { b with sleeping, view := b.view.note text } := fun b sleeping text =>
      ⟨note_quiet text _, rfl, rfl, rfl, rfl, rfl, rfl, rfl⟩
    refine .after hpauses ((save_routinely _ false r.saved).bind fun b hb => ?_)
    have hbdemo : b.view.demo = false := hb.demo.trans (hpauses.demo.trans hdemo)
    dsimp only
    split
    · rename_i hvalid
      refine Logged.Meets.bind (sendSnapshot_routinely (m := .Sleep _) ⟨hbdemo, hvalid⟩ r.slept) ?_
      exact fun r hr => Logged.meets_pure (hr.trans (hends r.2 _ _))
    · exact routinely_pure (hends b false _)
  · exact routinely_pure (.refl a)

theorem battery_routinely (a : App) (r : Readings) : Routinely p a (a.battery p r) := by
  unfold battery
  split
  · dsimp only
    have hreads : ∀ (low : Bool) (critical : Nat), Routine a { a with
        critical
        view := if low then View.note "LOW BATTERY - CONNECT POWER" { a.view with batteryAdc := r.adc }
          else { a.view with batteryAdc := r.adc } } := by
      intro low critical
      cases low with
      | true => exact ⟨.of_eq rfl rfl rfl rfl, rfl, rfl, rfl, rfl, rfl, rfl, rfl⟩
      | false => exact ⟨.of_eq rfl rfl rfl rfl, rfl, rfl, rfl, rfl, rfl, rfl, rfl⟩
    have hends : ∀ b : App, Routine b { b with
        view := if r.sleepFailed then b.view.note "SD FLUSH FAILED - CONNECT POWER" else b.view
        lastDiag := b.view.now } := by
      intro b
      split
      · exact ⟨note_quiet _ _, rfl, rfl, rfl, rfl, rfl, rfl, rfl⟩
      · exact ⟨.refl _, rfl, rfl, rfl, rfl, rfl, rfl, rfl⟩
    exact .after (hreads _ _)
      ((beep_routinely _ _).bind fun b _ => (sleep_routinely b r).then fun c _ => hends c)
  · exact routinely_pure (.refl a)

/-! ## Touch and button -/

theorem held_routine (a : App) (pressed : Bool) : Routine a (a.held pressed) := by
  unfold held
  split
  · exact .shown (View.wakeDisplay_quiet _ false)
  · exact .refl a

theorem push_routine (a : App) (pressed : Bool) : Routine a (a.push pressed) := by
  have hwakes : ∀ b : App, Routine b { b with view := (b.view.wakeDisplay false).2 } := fun b =>
    .shown (View.wakeDisplay_quiet _ false)
  have hnew : Routine a (if pressed && !a.wasButton then
      { a with
        buttonAt := a.view.now, buttonWoke := (a.view.wakeDisplay false).1
        view := (a.view.wakeDisplay false).2 }
    else a) := by
    split
    · exact ⟨View.wakeDisplay_quiet _ false, rfl, rfl, rfl, rfl, rfl, rfl, rfl⟩
    · exact .refl a
  unfold push
  dsimp only
  split
  · exact hnew.trans (hwakes _)
  · exact hnew

theorem calibrateRequested_routine (a : App) : Routine a a.calibrateRequested :=
  ⟨.of_eq rfl rfl rfl rfl, rfl, rfl, rfl, rfl, rfl, rfl, rfl⟩

theorem pauseRequested_routine (a : App) (radio : Bool) : Routine a (a.pauseRequested radio) := by
  unfold pauseRequested
  split
  · exact ⟨.refl _, rfl, rfl, rfl, rfl, rfl, rfl, rfl⟩
  · split
    · exact beginRadio_routine a radio
    · exact .refl a

/-- The switch of the demo is handled last. -/
theorem serve_eq (a : App) (s : Service) : a.serve p s =
    handle a.view.requests (handlers p s).dropLast a.unasked >>= fun b =>
      pure { (if .Demo ∈ a.view.requests then b.demoRequested s.radio else b) with phase := .demo } := by
  have hlast : handlers p s =
      (handlers p s).dropLast ++ [(.Demo, fun a => pure (a.demoRequested s.radio))] := rfl
  unfold serve
  rw [hlast, handle, List.foldlM_append, bind_assoc, ← hlast]
  refine bind_congr fun b => ?_
  rw [List.foldlM_cons]
  split <;> rfl

theorem startCalibration_quiet (v : View) :
    Quiet (v.request .Calibrate) (startCalibration v) :=
  View.goto_quiet (s := .Calibration) ⟨nofun, nofun⟩ _

theorem next_quiet (v : View) : Quiet v v.next := by
  have hpages : View.nextScreen v.screen ≠ .AlertActions ∧ View.nextScreen v.screen ≠ .Details := by
    unfold View.nextScreen
    split <;> exact ⟨nofun, nofun⟩
  unfold View.next
  split
  · exact View.wakeDisplay_quiet v false
  · exact (View.wakeDisplay_quiet v false).trans (.opened rfl hpages (.inl rfl) rfl)

/-! ## Turns -/

/-- The phase that an input belongs to. -/
def Input.turn : Input → Option Phase
  | .head _ => some .head
  | .packet _ | .drained => some .radio
  | .touch _ => some .touch
  | .button _ _ => some .button
  | .serve _ => some .serve
  | .synthesize => some .demo
  | .rest _ => some .rest
  | .taken => none

theorem stepIo_out_of_turn {i : Input} {q : Phase} (hturn : i.turn = some q) (hphase : a.phase ≠ q) :
    a.stepIo p i = pure a := by
  cases i <;> cases hturn <;> unfold stepIo <;> dsimp only <;> rw [if_neg hphase]

end App

end Hound
