import Hound.App.Routine
import Hound.Lib.Runs

/-!
# The demo leaves the progress alone

From the tap that turns the demo on to the one that turns it off, what the task
remembers of the real rounds stays as it is, and nothing of it is handed to the
storage task. The detections that the panel shows, lists and freezes in between are
the demo's own, once the tap's request has been served and a frame has been drawn.
-/

namespace Hound

abbrev Progress := Companion × Appearance × UInt64 × Pet

/-- What the demo must not change. -/
def View.progress (v : View) : Progress := (v.companion, v.appearance, v.snoozeUntil, v.pet)

/-- Every detection that can be touched is one of the demo. -/
structure View.Tamed (v : View) : Prop where
  demo : v.demo = true
  recent : ∀ d ∈ v.recent, d.demo = true
  alert : v.alertUntil ≠ 0 → v.alertDetection.demo = true
  actions : v.screen = .AlertActions → v.actionDetection.demo = true
  details : v.screen = .Details → v.detailValid = true → v.detailDetection.demo = true

/-- The demo is shown over this progress, and the card of the last frame is its own. -/
structure View.Showing (kept : Progress) (v : View) : Prop where
  tamed : v.Tamed
  carded : v.homeAlertShown = true → v.actionDetection.demo = true
  progress : v.progress = kept

/-! ## Changes that stay aloof -/

/-- The change concerns neither the progress nor what can be touched. -/
structure Aloof (v w : View) : Prop where
  demo : w.demo = v.demo
  now : w.now = v.now
  progress : w.progress = v.progress
  recent : ∀ d ∈ w.recent, d ∈ v.recent
  alert : w.alertDetection = v.alertDetection ∧ (w.alertUntil = v.alertUntil ∨ w.alertUntil = 0)
  page : w.screen = v.screen ∨ w.screen ≠ .AlertActions ∧ w.screen ≠ .Details
  action : w.actionDetection = v.actionDetection ∧ w.homeAlertShown = v.homeAlertShown
  detail : w.detailValid = v.detailValid ∧ w.detailDetection = v.detailDetection
  activity : w.lastActivity = v.lastActivity ∨ w.lastActivity = v.now
  asked : ∀ r ∈ v.requests, r ∈ w.requests

variable {kept : Progress} {bright : UInt8 → Prop} {u v w : View} {d : Detection}

namespace Aloof

theorem refl (v : View) : Aloof v v :=
  ⟨rfl, rfl, rfl, fun _ h => h, ⟨rfl, .inl rfl⟩, .inl rfl, ⟨rfl, rfl⟩, ⟨rfl, rfl⟩, .inl rfl, fun _ h => h⟩

theorem trans (h : Aloof u v) (h' : Aloof v w) : Aloof u w := by
  refine ⟨h'.demo.trans h.demo, h'.now.trans h.now, h'.progress.trans h.progress,
    fun d hd => h.recent d (h'.recent d hd), ⟨h'.alert.1.trans h.alert.1, ?_⟩, ?_,
    ⟨h'.action.1.trans h.action.1, h'.action.2.trans h.action.2⟩,
    ⟨h'.detail.1.trans h.detail.1, h'.detail.2.trans h.detail.2⟩, ?_, fun r hr => h'.asked r (h.asked r hr)⟩
  · rcases h'.alert.2 with hsame | hzero
    · rw [hsame]
      exact h.alert.2
    · exact .inr hzero
  · rcases h'.page with hsame | hplain
    · rw [hsame]
      exact h.page
    · exact .inr hplain
  · rcases h'.activity with hsame | hnow
    · rw [hsame]
      exact h.activity
    · exact .inr (hnow.trans h.now)

theorem quiet (h : Quiet v w) : Aloof v w := by
  have hcompanion : w.companion = v.companion := congrArg Guarded.companion h.kept
  have happearance : w.appearance = v.appearance := congrArg Base.appearance h.base
  have hsnooze : w.snoozeUntil = v.snoozeUntil := congrArg Base.snoozeUntil h.base
  have hpet : w.pet = v.pet := congrArg Base.pet h.base
  have hrecent : w.recent = v.recent := congrArg Guarded.recent h.kept
  have hrequests : w.requests = v.requests := congrArg Guarded.requests h.kept
  refine ⟨congrArg Base.demo h.base, h.now, ?_, fun d hd => hrecent ▸ hd,
    ⟨congrArg Guarded.alertDetection h.kept, h.alert⟩, h.page,
    ⟨congrArg Base.actionDetection h.base, congrArg Base.homeAlertShown h.base⟩,
    ⟨congrArg Base.detailValid h.base, congrArg Base.detailDetection h.base⟩, h.activity, fun r hr => hrequests ▸ hr⟩
  unfold View.progress
  rw [hcompanion, happearance, hsnooze, hpet]

theorem request (v : View) (r : UiRequest) : Aloof v (v.request r) := by
  refine { Aloof.refl v with asked := fun s hs => ?_ }
  unfold View.request
  dsimp only
  split
  · exact hs
  · exact List.mem_cons_of_mem r hs

theorem offCard (h : w.offCard = v.offCard) : Aloof v w := by
  have hprogress : w.progress = v.progress := View.eq_of_offCard View.progress (fun _ => rfl) h
  have hrecent : w.recent = v.recent := View.eq_of_offCard View.recent (fun _ => rfl) h
  have hrequests : w.requests = v.requests := View.eq_of_offCard View.requests (fun _ => rfl) h
  exact ⟨View.eq_of_offCard View.demo (fun _ => rfl) h, View.eq_of_offCard View.now (fun _ => rfl) h, hprogress,
    fun d hd => hrecent ▸ hd,
    ⟨View.eq_of_offCard View.alertDetection (fun _ => rfl) h,
      .inl (View.eq_of_offCard View.alertUntil (fun _ => rfl) h)⟩,
    .inl (View.eq_of_offCard View.screen (fun _ => rfl) h),
    ⟨View.eq_of_offCard View.actionDetection (fun _ => rfl) h,
      View.eq_of_offCard View.homeAlertShown (fun _ => rfl) h⟩,
    ⟨View.eq_of_offCard View.detailValid (fun _ => rfl) h,
      View.eq_of_offCard View.detailDetection (fun _ => rfl) h⟩,
    .inl (View.eq_of_offCard View.lastActivity (fun _ => rfl) h), fun r hr => hrequests ▸ hr⟩

/-- The book of the demo. -/
theorem setBook (v : View) {demo : Bool} (hdemo : demo = true) (c : Companion) : Aloof v (v.setBook demo c) := by
  rw [hdemo]
  exact { Aloof.refl v with }

theorem setLook (hdemo : v.demo = true) (a : Appearance) : Aloof v (v.setLook a) := by
  unfold View.setLook
  rw [if_pos hdemo]
  exact { Aloof.refl v with }

theorem setSnooze (hdemo : v.demo = true) (t : UInt64) : Aloof v (v.setSnooze t) := by
  unfold View.setSnooze
  rw [if_pos hdemo]
  exact { Aloof.refl v with }

theorem requestExport (hdemo : v.demo = true) : Aloof v v.requestExport := by
  unfold View.requestExport
  by_cases hbusy : v.exportStatus = .Exporting
  · rw [if_pos hbusy]
    exact .refl v
  · rw [if_neg hbusy, if_pos hdemo]
    exact { Aloof.refl v with }

theorem requestEject (hdemo : v.demo = true) : Aloof v v.requestEject := by
  unfold View.requestEject
  rw [if_pos hdemo]
  exact { Aloof.refl v with }

theorem tickPet (hdemo : v.demo = true) : Aloof v v.tickPet := by
  unfold View.tickPet
  rw [if_pos hdemo]
  exact { Aloof.refl v with }

theorem resetProgress (hdemo : v.demo = true) : Aloof v v.resetProgress := by
  have hscents : Aloof v v.resetScents := setBook v hdemo _
  have hpet : Aloof v.resetScents v.resetScents.resetPet := by
    unfold View.resetPet
    rw [if_pos (hscents.demo.trans hdemo)]
    exact { Aloof.refl v.resetScents with }
  have hrest : ∀ u : View, Aloof u { u with
      knownLevel := u.pet.level, unlockUntil := 0, levelUntil := 0, celebrationUntil := 0 } := fun u =>
    { Aloof.refl u with }
  exact (hscents.trans hpet).trans (hrest _)

end Aloof

namespace View

theorem Tamed.aloof (h : v.Tamed) (haloof : Aloof v w) : w.Tamed := by
  refine ⟨haloof.demo.trans h.demo, fun d hd => h.recent d (haloof.recent d hd), fun huntil => ?_, fun hactions => ?_,
    fun hdetails hvalid => ?_⟩
  · rw [haloof.alert.1]
    rcases haloof.alert.2 with hsame | hzero
    · exact h.alert (hsame ▸ huntil)
    · exact absurd hzero huntil
  · rw [haloof.action.1]
    rcases haloof.page with hsame | hplain
    · exact h.actions (hsame.symm.trans hactions)
    · exact absurd hactions hplain.1
  · rw [haloof.detail.2]
    rcases haloof.page with hsame | hplain
    · exact h.details (hsame.symm.trans hdetails) (haloof.detail.1.symm.trans hvalid)
    · exact absurd hdetails hplain.2

theorem Showing.aloof (h : v.Showing kept) (haloof : Aloof v w) : w.Showing kept := by
  refine ⟨h.tamed.aloof haloof, fun hshown => ?_, haloof.progress.trans h.progress⟩
  rw [haloof.action.1]
  exact h.carded (haloof.action.2.symm.trans hshown)

/-! ## Touches in the demo -/

theorem Tamed.detail (h : v.Tamed) (hpage : v.screen = .Details) (hd : v.detail = some d) : d.demo = true := by
  unfold View.detail at hd
  split at hd
  · rename_i hvalid
    cases hd
    exact h.details hpage hvalid
  · exact h.recent d (List.mem_of_getElem? hd)

/-- What a touch freezes is one of the demo. -/
theorem Showing.frozen (h : v.Showing kept)
    (hd : v.homeAlertShown = true ∧ d = v.actionDetection ∨ v.now < v.alertUntil ∧ d = v.alertDetection ∨
      v.screen = .Details ∧ v.detail = some d) : d.demo = true := by
  rcases hd with ⟨hshown, rfl⟩ | ⟨huntil, rfl⟩ | ⟨hpage, hdetail⟩
  · exact h.carded hshown
  · refine h.tamed.alert fun hzero => ?_
    rw [hzero] at huntil
    exact absurd huntil UInt64.not_lt_zero
  · exact h.tamed.detail hpage hdetail

theorem Showing.touch (h : v.Showing kept) (htouch : Touch bright v w) : w.Showing kept := by
  have hdemo := h.tamed.demo
  cases htouch with
  | quiet hquiet => exact h.aloof (.quiet hquiet)
  | request => exact h.aloof (.request v _)
  | book => exact h.aloof (.setBook v hdemo _)
  | ignore hpage => exact h.aloof (.setBook v (h.tamed.actions hpage) _)
  | dress => exact h.aloof (.setLook hdemo _)
  | snooze t => exact h.aloof (.setSnooze hdemo t)
  | stroke hreal => exact absurd (hdemo.symm.trans hreal) Bool.noConfusion
  | export' => exact h.aloof (.requestExport hdemo)
  | eject => exact h.aloof (.requestEject hdemo)
  | actions hd =>
    exact ⟨⟨hdemo, h.tamed.recent, fun huntil => absurd rfl huntil, fun _ => h.frozen hd, nofun⟩, nofun, h.progress⟩
  | details i =>
    unfold View.openDetails
    split
    · exact h
    · rename_i d hd
      have hlisted : d.demo = true := h.tamed.recent d (List.mem_of_getElem? hd)
      exact ⟨⟨hdemo, h.tamed.recent, h.tamed.alert, nofun, fun _ _ => hlisted⟩, h.carded, h.progress⟩
  | prefer | brighten | clock | battery => exact h.aloof { Aloof.refl v with }

theorem Showing.touched (h : v.Showing kept) (htouched : Touched bright v w) : w.Showing kept := by
  induction htouched with
  | refl => exact h
  | tail _ htouch ih => exact ih.touch htouch

/-! ## The demo's events -/

theorem Tamed.event (hmac : Hmac) (h : v.Tamed) (hd : d.demo = true) : (v.event hmac d).Tamed := by
  have hlearnt := v.event_learnt hmac d
  generalize v.event hmac d = w at hlearnt
  have haction : w.actionDetection = v.actionDetection := congrArg Base.actionDetection hlearnt.base
  have hvalid : w.detailValid = v.detailValid := congrArg Base.detailValid hlearnt.base
  have hdetail : w.detailDetection = v.detailDetection := congrArg Base.detailDetection hlearnt.base
  refine ⟨(congrArg Base.demo hlearnt.base).trans h.demo, fun e he => ?_, fun huntil => ?_, fun hactions => ?_,
    fun hdetails hshown => ?_⟩
  · rcases hlearnt.recent e he with rfl | he
    · exact hd
    · exact h.recent e he
  · rcases hlearnt.alert with hnew | ⟨hsame, htime⟩
    · exact hnew ▸ hd
    · rw [hsame]
      rcases htime with hkept | hzero
      · exact h.alert (hkept ▸ huntil)
      · exact absurd hzero huntil
  · rw [haction]
    rcases hlearnt.page with hsame | hhome
    · exact h.actions (hsame.symm.trans hactions)
    · exact absurd (hhome.symm.trans hactions) nofun
  · rw [hdetail]
    rcases hlearnt.page with hsame | hhome
    · exact h.details (hsame.symm.trans hdetails) (hvalid.symm.trans hshown)
    · exact absurd (hhome.symm.trans hdetails) nofun

theorem event_progress (hmac : Hmac) (v : View) (hd : d.demo = true) : (v.event hmac d).progress = v.progress := by
  have hlearnt := v.event_learnt hmac d
  have hcompanion : (v.event hmac d).companion = v.companion := by
    rcases hlearnt.companion with hsame | ⟨hreal, -⟩
    · exact hsame
    · exact absurd (hd.symm.trans hreal) Bool.noConfusion
  have happearance : (v.event hmac d).appearance = v.appearance := congrArg Base.appearance hlearnt.base
  have hsnooze : (v.event hmac d).snoozeUntil = v.snoozeUntil := congrArg Base.snoozeUntil hlearnt.base
  have hpet : (v.event hmac d).pet = v.pet := congrArg Base.pet hlearnt.base
  unfold progress
  rw [hcompanion, happearance, hsnooze, hpet]

/-! ## Frames -/

/-- Just after a touch the panel is not off. -/
theorem updateDisplay_lit (hlit : v.lastActivity = v.now) : v.updateDisplay.displayMode ≠ .Off := by
  have hfresh : ∀ minutes : UInt8, timeoutDue 0 minutes = false := by
    intro minutes
    unfold timeoutDue
    cases hzero : minutes != 0 with
    | false => rfl
    | true =>
      have hne : minutes ≠ 0 := by simpa using hzero
      have hpos : 0 < minutes.toNat := Nat.pos_of_ne_zero fun h0 => hne (UInt8.toNat_inj.mp h0)
      have hbyte := minutes.toNat_lt
      rw [Bool.true_and, decide_eq_false_iff_not, UInt64.not_le, UInt64.lt_iff_toNat_lt, UInt64.toNat_mul,
        UInt8.toNat_toUInt64]
      have hzero : (0 : UInt64).toNat = 0 := rfl
      have hminute : (60000 : UInt64).toNat = 60000 := rfl
      rw [hzero, hminute]
      omega
  have hidle : ∀ (a : Appearance) (armed : Bool), idleStage a armed 0 = .Active := by
    intro a armed
    unfold idleStage
    rw [hfresh, hfresh, hfresh]
    rfl
  have hnotlate : ¬ v.now < v.lastActivity := by
    rw [hlit]
    exact UInt64.lt_irrefl v.now
  unfold updateDisplay
  dsimp only
  rw [if_neg hnotlate]
  split
  · exact nofun
  · unfold settleDisplay
    split
    · exact nofun
    · rw [hlit, UInt64.sub_self, hidle]
      dsimp only
      split <;> exact nofun

/-- A frame shows the demo's own card. -/
theorem Tamed.frame (hmac : Hmac) (h : v.Tamed) (hprogress : v.progress = kept) :
    (v.renderFrame hmac).Showing kept := by
  rw [renderFrame_eq]
  have hcard : v.showsCard = true → v.alertDetection.demo = true := by
    intro hshows
    unfold showsCard at hshows
    simp only [Bool.and_eq_true, decide_eq_true_eq] at hshows
    refine h.alert fun hzero => ?_
    rw [hzero] at hshows
    exact absurd hshows.2 UInt64.not_lt_zero
  have hfrozen : (v.selectTarget hmac).actionDetection = if v.showsCard then v.alertDetection else v.actionDetection := rfl
  refine ⟨⟨h.demo, h.recent, h.alert, fun hactions => ?_, h.details⟩, fun hshown => ?_, hprogress⟩
  · rw [hfrozen]
    split
    · rename_i hshows
      exact hcard hshows
    · exact h.actions hactions
  · have hshows : v.showsCard = true := hshown
    rw [hfrozen, if_pos hshows]
    exact hcard hshows

end View

namespace App

open Worker (Message)

/-- Nothing of the real rounds. -/
def Harmless : Message → Prop
  | .Record _ | .Diagnostics _ | .Sound => True
  | .Save _ | .BackupIgnores _ | .Sleep _ | .Clear | .Export | .Eject => False

/-- The variables of the task that the demo must not change either. -/
structure Apart (a b : App) : Prop where
  view : Aloof a.view b.view
  meals : b.meals = a.meals
  realPet : b.realPet = a.realPet
  phase : b.phase = a.phase

variable {p : Platform} {a b c : App} {meals : MealGuard}

namespace Apart

theorem refl (a : App) : Apart a a := ⟨.refl _, rfl, rfl, rfl⟩

theorem trans (h : Apart a b) (h' : Apart b c) : Apart a c :=
  ⟨h.view.trans h'.view, h'.meals.trans h.meals, h'.realPet.trans h.realPet, h'.phase.trans h.phase⟩

theorem routine (h : Routine a b) : Apart a b := ⟨.quiet h.view, h.meals, h.realPet, h.phase⟩

/-- Only the view changes. -/
theorem shown {w : View} (h : Aloof a.view w) : Apart a { a with view := w } := ⟨h, rfl, rfl, rfl⟩

end Apart

theorem told_harmless (hdemo : a.view.demo = true) : ∀ m, Told p a m → Harmless m
  | .Save _, h => absurd (hdemo.symm.trans h.1) Bool.noConfusion
  | .BackupIgnores _, h => absurd (hdemo.symm.trans h.1) Bool.noConfusion
  | .Sleep _, h => absurd (hdemo.symm.trans h.1) Bool.noConfusion
  | .Record _, _ => trivial
  | .Diagnostics _, _ => trivial
  | .Sound, _ => trivial

/-- A call in the demo that hands nothing of the real rounds over and stays aloof. -/
abbrev Playing (a : App) (x : AppIo App) : Prop := x.Meets Harmless (Apart a)

theorem playing_pure (h : Apart a b) : Playing a (pure b) := Logged.meets_pure h

/-- What comes before is aloof. -/
theorem Playing.after {x : AppIo App} (h : Apart a b) (hx : Playing b x) : Playing a x :=
  hx.mono (fun _ hm => hm) fun _ hc => h.trans hc

theorem playing_of_routinely {x : AppIo App} (hdemo : a.view.demo = true) (hx : Routinely p a x) : Playing a x :=
  hx.mono (told_harmless hdemo) fun _ hr => .routine hr

/-! ## Calls in the demo -/

theorem save_demo (hdemo : a.view.demo = true) (backup claimed : Bool) : a.save p backup claimed = pure a := by
  unfold save
  rw [if_pos hdemo]

theorem calibrate_playing (hdemo : a.view.demo = true) (t : Press) : Playing a (a.calibrate p t) := by
  unfold calibrate
  split
  · exact playing_pure ⟨.refl _, rfl, rfl, rfl⟩
  have hpage : (if a.view.settings.onboarded.isSet = true then Screen.Home else .Welcome) ≠ .AlertActions ∧
      (if a.view.settings.onboarded.isSet = true then Screen.Home else .Welcome) ≠ .Details := by
    split <;> exact ⟨nofun, nofun⟩
  rename_i c _
  have hsolves : Apart a { a with
      state.calibration := c, calibrating := false
      view := a.view.goto (if a.view.settings.onboarded.isSet then .Home else .Welcome) } :=
    ⟨.quiet (View.goto_quiet hpage _), rfl, rfl, rfl⟩
  dsimp only
  generalize hb : ({ a with
      state.calibration := c, calibrating := false
      view := a.view.goto (if a.view.settings.onboarded.isSet then .Home else .Welcome) } : App) = b at hsolves
  rw [save_demo (hsolves.view.demo.trans hdemo), pure_bind]
  split
  · exact playing_pure (hsolves.trans (.routine (beginRadio_routine b _)))
  · exact playing_pure hsolves

theorem startCalibration_aloof (v : View) : Aloof v (startCalibration v) :=
  (Aloof.request v .Calibrate).trans (.quiet (startCalibration_quiet v))

theorem release_playing (hdemo : a.view.demo = true) (claimed : Bool) : Playing a (a.release p claimed) := by
  unfold release
  split
  · have hmutes : Apart a { a with view := { a.view with settings.sound := .ofBool false } } :=
      .shown { Aloof.refl a.view with }
    rw [save_demo (hmutes.view.demo.trans hdemo)]
    exact playing_pure hmutes
  · split
    · exact playing_pure (.shown (startCalibration_aloof a.view))
    · exact playing_pure (.shown (.quiet (next_quiet a.view)))

theorem letGo_playing (hdemo : a.view.demo = true) (pressed claimed : Bool) : Playing a (a.letGo p pressed claimed) := by
  unfold letGo
  split
  · exact release_playing hdemo claimed
  · exact playing_pure (.refl a)

theorem exportRequested_playing (hdemo : a.view.demo = true) (checking : Bool) :
    Playing a (a.exportRequested checking) := by
  unfold exportRequested
  rw [if_pos hdemo]
  exact playing_pure (.shown (.offCard (View.exportQueued_offCard a.view false)))

theorem resetRequested_playing (hdemo : a.view.demo = true) (claimed : Bool) :
    Playing a (a.resetRequested p claimed) := by
  have hreset : Apart a { a with view := a.view.resetProgress } := .shown (.resetProgress hdemo)
  unfold resetRequested
  rw [save_demo (hreset.view.demo.trans hdemo)]
  exact playing_pure hreset

/-- Every handler but the one of the demo itself. -/
theorem handlers_playing (hdemo : a.view.demo = true) (s : Service) :
    ∀ r ∈ (handlers p s).dropLast, Playing a (r.2 a) := by
  intro r hr
  simp only [handlers, List.dropLast_cons_cons, List.dropLast_singleton, List.mem_cons, List.not_mem_nil, or_false] at hr
  rcases hr with rfl | rfl | rfl | rfl | rfl | rfl | rfl | rfl | rfl | rfl
  · exact playing_pure (.routine (calibrateRequested_routine a))
  · exact playing_pure (.routine (pauseRequested_routine a s.radio))
  · change Playing a (a.clearRequested s.checking)
    unfold clearRequested
    rw [if_pos hdemo]
    exact playing_pure (.refl a)
  · exact playing_pure (.routine (beginRadio_routine a s.radio))
  · exact playing_of_routinely hdemo (save_routinely a false s.saved)
  · exact playing_of_routinely hdemo (save_routinely a true s.backedUp)
  · exact exportRequested_playing hdemo s.checking
  · change Playing a (a.ejectRequested p s.ejectSaved)
    unfold ejectRequested
    rw [if_pos hdemo]
    exact playing_pure (.refl a)
  · exact playing_of_routinely hdemo (diagnostics_routinely (p := p) a s.report)
  · exact resetRequested_playing hdemo s.resetSaved

theorem poll_playing (a : App) (r : Readings) : Apart a (a.poll r) := by
  have hreads : ∀ scanning backupPending : Bool, Aloof a.view { a.view with scanning, backupPending } :=
    fun scanning backupPending => { Aloof.refl a.view with }
  have hempties : ∀ (v : View) (notice : Bytes), Aloof v { v with recent := [], logPage := 0, notice } :=
    fun v notice => { Aloof.refl v with recent := fun d hd => absurd hd List.not_mem_nil }
  have hclears : ∀ v : View, Aloof v v.clearRecent := fun v => hempties v _
  have hpolls : ∀ v : View, Aloof v (v.poll r.polled) := fun v => .offCard (View.poll_offCard v r.polled)
  unfold poll
  dsimp only
  generalize (a.view.backupPending && !(a.view.backupPending && r.manualBackups != a.manualBackupCount)) = backupPending
  have hread := (hreads (r.ready && !a.radioPaused) backupPending).trans (hpolls _)
  generalize View.poll { a.view with scanning := r.ready && !a.radioPaused, backupPending } r.polled = v at hread
  have hcleared : Aloof a.view (if r.clears != a.lastClears then v.clearRecent else v) := by
    split
    · exact hread.trans (hclears v)
    · exact hread
  exact ⟨hcleared, rfl, rfl, rfl⟩

/-! ## Stages of the demo -/

/-- The tap has turned the demo on, and its request is still to be served. -/
structure Entering (kept : Progress) (a : App) : Prop where
  phase : a.phase = .button ∨ a.phase = .serve
  demo : a.view.demo = true
  progress : a.view.progress = kept
  page : a.view.screen ≠ .AlertActions ∧ a.view.screen ≠ .Details
  lit : a.view.lastActivity = a.view.now
  asked : .Demo ∈ a.view.requests

/-- The request was served, and the last frame is still one of the real rounds. -/
structure Entered (kept : Progress) (a : App) : Prop where
  phase : a.phase = .demo ∨ a.phase = .rest
  tamed : a.view.Tamed
  progress : a.view.progress = kept
  lit : a.view.lastActivity = a.view.now
  pet : a.realPet = kept.2.2.2

structure Settled (kept : Progress) (a : App) : Prop where
  view : a.view.Showing kept
  pet : a.realPet = kept.2.2.2

/-- The demo is on. -/
structure Demoing (kept : Progress) (meals : MealGuard) (a : App) : Prop where
  meals : a.meals = meals
  stage : Entering kept a ∨ Entered kept a ∨ Settled kept a

/-- A tap has turned the demo off. -/
structure Left (kept : Progress) (meals : MealGuard) (a : App) : Prop where
  demo : a.view.demo = false
  progress : a.view.progress = kept
  meals : a.meals = meals
  asked : .Demo ∈ a.view.requests
  pet : a.realPet = kept.2.2.2

variable {kept : Progress}

theorem Entering.apart (h : Entering kept a) (hb : Apart a b) : Entering kept b := by
  have hphase : b.phase = .button ∨ b.phase = .serve := by
    rw [hb.phase]
    exact h.phase
  refine ⟨hphase, hb.view.demo.trans h.demo, hb.view.progress.trans h.progress, ?_, ?_, hb.view.asked _ h.asked⟩
  · rcases hb.view.page with hsame | hplain
    · rw [hsame]
      exact h.page
    · exact hplain
  · rw [hb.view.now]
    rcases hb.view.activity with hsame | hnow
    · exact hsame.trans h.lit
    · exact hnow

theorem Entered.apart (h : Entered kept a) (hb : Apart a b) : Entered kept b := by
  have hphase : b.phase = .demo ∨ b.phase = .rest := by
    rw [hb.phase]
    exact h.phase
  refine ⟨hphase, h.tamed.aloof hb.view, hb.view.progress.trans h.progress, ?_, hb.realPet.trans h.pet⟩
  rw [hb.view.now]
  rcases hb.view.activity with hsame | hnow
  · exact hsame.trans h.lit
  · exact hnow

theorem Settled.apart (h : Settled kept a) (hb : Apart a b) : Settled kept b :=
  ⟨h.view.aloof hb.view, hb.realPet.trans h.pet⟩

theorem Demoing.apart (h : Demoing kept meals a) (hb : Apart a b) : Demoing kept meals b :=
  ⟨hb.meals.trans h.meals, h.stage.imp (·.apart hb) (·.imp (·.apart hb) (·.apart hb))⟩

theorem Demoing.demo (h : Demoing kept meals a) : a.view.demo = true := by
  rcases h.stage with hstage | hstage | hstage
  · exact hstage.demo
  · exact hstage.tamed.demo
  · exact hstage.view.tamed.demo

theorem Demoing.progress (h : Demoing kept meals a) : a.view.progress = kept := by
  rcases h.stage with hstage | hstage | hstage
  · exact hstage.progress
  · exact hstage.progress
  · exact hstage.view.progress

theorem Left.apart (h : Left kept meals a) (hb : Apart a b) : Left kept meals b :=
  ⟨hb.view.demo.trans h.demo, hb.view.progress.trans h.progress, hb.meals.trans h.meals, hb.view.asked _ h.asked,
    hb.realPet.trans h.pet⟩

/-! ## The switch -/

/-- The tap that switches the demo. -/
def switched (a : App) : App := { a with view := (a.view.wakeDisplay false).2.toggleDemo }

theorem asked_toggleDemo (v : View) : .Demo ∈ v.toggleDemo.requests := by
  unfold View.toggleDemo View.request
  dsimp only
  split
  · rename_i hmem
    exact hmem
  · exact List.mem_cons_self

theorem switched_view (a : App) : a.switched.view.demo = !a.view.demo ∧ a.switched.view.progress = a.view.progress ∧
    a.switched.view.screen = .Home ∧ a.switched.view.lastActivity = a.switched.view.now ∧
    .Demo ∈ a.switched.view.requests := ⟨rfl, rfl, rfl, rfl, asked_toggleDemo _⟩

theorem calibrate_demo (a : App) (t : Press) : (a.calibrate p t).value.view.demo = a.view.demo := by
  unfold calibrate
  split
  · rfl
  rename_i c _
  dsimp only
  generalize hb : ({ a with
      state.calibration := c, calibrating := false
      view := a.view.goto (if a.view.settings.onboarded.isSet then .Home else .Welcome) } : App) = b
  have hdemo : b.view.demo = a.view.demo := by
    rw [← hb]
    rfl
  have hsaved := (save_routinely (p := p) b false t.claimed).returned.demo.trans hdemo
  rw [Logged.value_bind]
  split
  · exact (beginRadio_routine _ _).demo.trans hsaved
  · exact hsaved

/-- A press switches the demo and hands nothing over, or leaves the demo as it is. -/
theorem press_cases (a : App) (t : Press) : a.press p t = pure a.switched ∨
    (a.press p t).value.view.demo = a.view.demo := by
  unfold press
  split
  · dsimp only
    split
    · exact .inr (calibrate_demo _ t)
    · exact .inr rfl
  · split
    · dsimp only
      rcases a.view.tap_touched p.hmac (fromPortrait t.point a.view.settings.portrait.isSet).1
        (fromPortrait t.point a.view.settings.portrait.isSet).2 with htouched | ⟨-, -, hdemo⟩
      · exact .inr htouched.now_demo.2
      · rw [hdemo]
        exact .inl rfl
    · split <;> exact .inr rfl

/-- In the demo a press goes on with it or turns it off. -/
theorem press_settled (h : Settled kept a) (hmeals : a.meals = meals) (t : Press) :
    (a.press p t).Meets Harmless fun b => (b.meals = meals ∧ Settled kept b) ∨ Left kept meals b := by
  have hdemo := h.view.tamed.demo
  have hplays : ∀ {x : AppIo App}, Playing a x →
      x.Meets Harmless fun b => (b.meals = meals ∧ Settled kept b) ∨ Left kept meals b := fun hx =>
    hx.mono (fun _ hm => hm) fun _ hb => .inl ⟨hb.meals.trans hmeals, h.apart hb⟩
  have htaps : ∀ x y : Int, ({ a with view := a.view.tap p.hmac x y } : App).meals = meals ∧
      Settled kept { a with view := a.view.tap p.hmac x y } ∨ Left kept meals { a with view := a.view.tap p.hmac x y } := by
    intro x y
    rcases a.view.tap_touched p.hmac x y with htouched | ⟨-, -, htoggled⟩
    · exact .inl ⟨hmeals, h.view.touched htouched, h.pet⟩
    · rw [htoggled]
      obtain ⟨hoff, hprogress, -, -, hasked⟩ := a.switched_view
      exact .inr ⟨hoff.trans (congrArg not hdemo), hprogress.trans h.view.progress, hmeals, hasked, h.pet⟩
  unfold press
  split
  · have hcounts : Apart a (a.pointed t) := ⟨.refl _, rfl, rfl, rfl⟩
    dsimp only
    split <;> generalize a.pointed t = b at hcounts
    · exact hplays (.after hcounts (calibrate_playing (hcounts.view.demo.trans hdemo) t))
    · exact hplays (playing_pure hcounts)
  · split
    · exact Logged.meets_pure (htaps _ _)
    · split
      · have hregion : Aloof a.view { a.view with settings.region := 0 } := { Aloof.refl a.view with }
        exact hplays (playing_pure (.shown (hregion.trans (startCalibration_aloof _))))
      · exact hplays (playing_pure (.refl a))

/-! ## The task's steps in the demo -/

theorem contact_settled (h : Settled kept a) (hmeals : a.meals = meals) (t : Press) :
    (contact p a t).Meets Harmless fun b => (b.meals = meals ∧ Settled kept b) ∨ Left kept meals b := by
  have htouched : Apart a { a with view := { a.view with touchX := t.raw.1, touchY := t.raw.2 } } :=
    .shown { Aloof.refl a.view with }
  have hpressed : Apart a { a with
      view := { a.view with touchX := t.raw.1, touchY := t.raw.2 }, lastTouch := a.view.now } :=
    ⟨{ Aloof.refl a.view with }, rfl, rfl, rfl⟩
  unfold contact
  dsimp only
  split
  · exact press_settled (h.apart hpressed) hmeals t
  · exact Logged.meets_pure (.inl ⟨hmeals, h.apart htouched⟩)

theorem touch_demoing (h : Demoing kept meals a) (hphase : a.phase = .touch) (t : Option Press) :
    (App.touch p a t).Meets Harmless fun b => Demoing kept meals b ∨ b.phase = .button ∧ Left kept meals b := by
  have hsettled : Settled kept a := by
    rcases h.stage with hstage | hstage | hstage
    · exact absurd hphase (by rcases hstage.phase with hp | hp <;> rw [hp] <;> exact nofun)
    · exact absurd hphase (by rcases hstage.phase with hp | hp <;> rw [hp] <;> exact nofun)
    · exact hstage
  have hends : ∀ b : App, (b.meals = meals ∧ Settled kept b) ∨ Left kept meals b →
      Demoing kept meals { b.held t.isSome with wasTouch := t.isSome, phase := .button } ∨
        Left kept meals { b.held t.isSome with wasTouch := t.isSome, phase := .button } := by
    intro b hb
    have hheld : Apart b (b.held t.isSome) := .routine (held_routine b t.isSome)
    generalize b.held t.isSome = c at hheld
    rcases hb with ⟨hbmeals, hb⟩ | hb
    · have hc := hb.apart hheld
      exact .inl ⟨hheld.meals.trans hbmeals, .inr (.inr ⟨hc.view, hc.pet⟩)⟩
    · have hc := hb.apart hheld
      exact .inr ⟨hc.demo, hc.progress, hc.meals, hc.asked, hc.pet⟩
  unfold touch
  refine .bind (Q := fun b => (b.meals = meals ∧ Settled kept b) ∨ Left kept meals b) ?_ fun b hb =>
    Logged.meets_pure ((hends b hb).imp_right fun hleft => ⟨rfl, hleft⟩)
  cases t with
  | none => exact Logged.meets_pure (.inl ⟨h.meals, hsettled⟩)
  | some t => exact contact_settled hsettled h.meals t

theorem button_demoing (h : Demoing kept meals a) (hphase : a.phase = .button) (pressed claimed : Bool) :
    (a.button p pressed claimed).Meets Harmless (Demoing kept meals) := by
  have hends : ∀ b : App, Apart a b → Demoing kept meals { b with wasButton := pressed, phase := .serve } := by
    intro b hb
    have hdemoing := h.apart hb
    refine ⟨hdemoing.meals, ?_⟩
    rcases hdemoing.stage with hstage | hstage | hstage
    · exact .inl ⟨.inr rfl, hstage.demo, hstage.progress, hstage.page, hstage.lit, hstage.asked⟩
    · have hpressed := hb.phase.trans hphase
      rcases hstage.phase with hp | hp <;> exact absurd (hpressed.symm.trans hp) nofun
    · exact .inr (.inr ⟨hstage.view, hstage.pet⟩)
  have hpushed : Apart a (a.push pressed) := .routine (push_routine a pressed)
  unfold button
  exact .bind (Playing.after hpushed (letGo_playing (hpushed.view.demo.trans h.demo) pressed claimed)) fun b hb =>
    Logged.meets_pure (hends b hb)

/-- All handlers but the last. -/
theorem handle_playing (hdemo : a.view.demo = true) (s : Service) (asked : List UiRequest) :
    Playing a (handle asked (handlers p s).dropLast a) := by
  refine Logged.Meets.foldlM_mem (fun b r hr hb => ?_) (.refl a)
  split
  · exact Playing.after hb (handlers_playing (hb.view.demo.trans hdemo) s r hr)
  · exact playing_pure hb

/-- The demo starts with lists of its own, and the pet of the real rounds is kept. -/
theorem demoRequested_on (hdemo : a.view.demo = true) (radio : Bool) :
    (a.demoRequested radio).view = { a.view with
        previewFullness := 70, previewMood := 70, previewDecayMs := a.view.now
        follow := {}, recent := [], alertUntil := 0, mealUntil := 0 } ∧
      (a.demoRequested radio).realPet = a.view.pet ∧ (a.demoRequested radio).meals = a.meals := by
  unfold demoRequested View.switchDemo
  dsimp only
  rw [if_pos hdemo, if_pos hdemo, if_pos hdemo]
  exact ⟨rfl, rfl, rfl⟩

theorem serve_demoing (h : Demoing kept meals a) (hphase : a.phase = .serve) (s : Service) :
    (a.serve p s).Meets Harmless (Demoing kept meals) := by
  rw [serve_eq]
  refine .bind (handle_playing (a := a.unasked) h.demo s a.view.requests) fun b hb => Logged.meets_pure ?_
  have hdemo : b.view.demo = true := hb.view.demo.trans h.demo
  have hmeals : b.meals = meals := hb.meals.trans h.meals
  obtain ⟨hview, hpet, hkeeps⟩ := demoRequested_on hdemo s.radio
  generalize b.demoRequested s.radio = c at *
  rcases h.stage with hstage | hstage | hstage
  · -- what the real rounds listed and showed is dropped
    rw [if_pos hstage.asked]
    have hpage : b.view.screen ≠ .AlertActions ∧ b.view.screen ≠ .Details := by
      rcases hb.view.page with hsame | hplain
      · rw [hsame]
        exact hstage.page
      · exact hplain
    have hprogress : b.view.progress = kept := hb.view.progress.trans hstage.progress
    have hlit : b.view.lastActivity = b.view.now := by
      rw [hb.view.now]
      rcases hb.view.activity with hsame | hnow
      · exact hsame.trans hstage.lit
      · exact hnow
    have htamed : c.view.Tamed := by
      rw [hview]
      exact ⟨hdemo, fun d hd => absurd hd List.not_mem_nil, fun huntil => absurd rfl huntil,
        fun hactions => absurd hactions hpage.1, fun hdetails _ => absurd hdetails hpage.2⟩
    have hkept : c.view.progress = kept := by
      rw [hview]
      exact hprogress
    have hfresh : c.view.lastActivity = c.view.now := by
      rw [hview]
      exact hlit
    exact ⟨hkeeps.trans hmeals, .inr (.inl ⟨.inl rfl, htamed, hkept, hfresh,
      hpet.trans (congrArg (fun k : Progress => k.2.2.2) hprogress)⟩)⟩
  · rcases hstage.phase with hp | hp <;> exact absurd (hphase.symm.trans hp) nofun
  · have hunasked : a.unasked.view.Showing kept :=
      ⟨⟨h.demo, hstage.view.tamed.recent, hstage.view.tamed.alert, hstage.view.tamed.actions,
        hstage.view.tamed.details⟩, hstage.view.carded, hstage.view.progress⟩
    have hshowing := hunasked.aloof hb.view
    split
    · have hlisted : c.view.Showing kept := by
        rw [hview]
        exact ⟨⟨hdemo, fun d hd => absurd hd List.not_mem_nil, fun huntil => absurd rfl huntil,
          hshowing.tamed.actions, hshowing.tamed.details⟩, hshowing.carded, hshowing.progress⟩
      exact ⟨hkeeps.trans hmeals, .inr (.inr ⟨hlisted,
        hpet.trans (congrArg (fun k : Progress => k.2.2.2) hshowing.progress)⟩)⟩
    · exact ⟨hmeals, .inr (.inr ⟨hshowing, hb.realPet.trans hstage.pet⟩)⟩

/-- In the demo a packet is only taken. -/
theorem hear_demo (hdemo : a.view.demo = true) (r : Reception) : a.hear p r = pure a := by
  unfold hear
  rw [if_pos (by rw [hdemo]; rfl)]

/-- Past the requests a step that goes on with the demo keeps its stage. -/
theorem demoing_of_view (h : Demoing kept meals a) (hphase : a.phase = .demo ∨ a.phase = .rest)
    (hmeals : b.meals = a.meals) (hpet : b.realPet = a.realPet) (hnext : b.phase = .demo ∨ b.phase = .rest)
    (htamed : a.view.Tamed → b.view.Tamed) (hprogress : b.view.progress = a.view.progress)
    (hlit : a.view.lastActivity = a.view.now → b.view.lastActivity = b.view.now)
    (hcard : a.view.Showing kept → b.view.homeAlertShown = true → b.view.actionDetection.demo = true) :
    Demoing kept meals b := by
  refine ⟨hmeals.trans h.meals, ?_⟩
  rcases h.stage with hstage | hstage | hstage
  · rcases hstage.phase with hp | hp <;> rcases hphase with hp' | hp' <;> exact absurd (hp.symm.trans hp') nofun
  · exact .inr (.inl ⟨hnext, htamed hstage.tamed, hprogress.trans hstage.progress, hlit hstage.lit,
      hpet.trans hstage.pet⟩)
  · exact .inr (.inr ⟨⟨htamed hstage.view.tamed, hcard hstage.view, hprogress.trans hstage.view.progress⟩,
      hpet.trans hstage.pet⟩)

theorem synthesize_demoing (h : Demoing kept meals a) (hphase : a.phase = .demo) :
    Demoing kept meals (a.synthesize p) := by
  unfold synthesize
  split
  · have haloof : Aloof a.view (a.view.hear (demoSample (demoDetection a.view.now)) true) :=
      .quiet (View.hear_aside a.view _ true).quiet
    have hd : (demoDetection a.view.now).demo = true := rfl
    dsimp only
    generalize demoDetection a.view.now = d at haloof hd
    generalize a.view.hear (demoSample d) true = v at haloof
    have hlearnt := v.event_learnt p.hmac d
    have hprogress := View.event_progress p.hmac v hd
    have htamed : v.Tamed → (v.event p.hmac d).Tamed := fun hv => hv.event p.hmac hd
    generalize v.event p.hmac d = w at hlearnt hprogress htamed
    refine demoing_of_view h (.inl hphase) rfl rfl (.inr rfl) (fun hv => htamed (hv.aloof haloof))
      (hprogress.trans haloof.progress) (fun hlit => ?_) fun hshowing hshown => ?_
    · change w.lastActivity = w.now
      have hnow : w.now = v.now := congrArg Base.now hlearnt.base
      rw [hlearnt.activity, hnow, haloof.now]
      rcases haloof.activity with hsame | hwoken
      · exact hsame.trans hlit
      · exact hwoken
    · have hcard : w.actionDetection = v.actionDetection := congrArg Base.actionDetection hlearnt.base
      have hsame : w.homeAlertShown = v.homeAlertShown := congrArg Base.homeAlertShown hlearnt.base
      change w.actionDetection.demo = true
      rw [hcard]
      exact (hshowing.aloof haloof).carded (hsame.symm.trans hshown)
  · exact demoing_of_view h (.inl hphase) rfl rfl (.inr rfl) id rfl id fun hshowing => hshowing.carded

theorem rest_demoing (h : Demoing kept meals a) (hphase : a.phase = .rest) (r : Readings) :
    (a.rest p r).Meets Harmless (Demoing kept meals) := by
  have hdemo := h.demo
  have hretry : a.retry p r.retried = pure a := by
    unfold retry
    rw [hdemo]
    rfl
  have hpolled := poll_playing a r
  have hbattery : Playing a ((a.poll r).battery p r) := .after hpolled
    (playing_of_routinely (hpolled.view.demo.trans hdemo) (battery_routinely (p := p) _ r))
  unfold rest
  rw [hretry, pure_bind]
  refine .bind hbattery fun b hb => Logged.meets_pure ?_
  have hdisplayed : Aloof b.view b.view.updateDisplay := .quiet (View.updateDisplay_quiet b.view)
  have hlights := View.updateDisplay_lit (v := b.view)
  have hb' := h.apart hb
  have hrest : b.phase = .rest := hb.phase.trans hphase
  unfold present
  dsimp only
  generalize b.view.updateDisplay = v at *
  refine ⟨hb'.meals, .inr (.inr ?_)⟩
  rcases hb'.stage with hstage | hstage | hstage
  · rcases hstage.phase with hp | hp <;> exact absurd (hrest.symm.trans hp) nofun
  · rw [if_neg (hlights hstage.lit)]
    exact ⟨(hstage.tamed.aloof hdisplayed).frame p.hmac (hdisplayed.progress.trans hstage.progress), hstage.pet⟩
  · have hshowing := hstage.view.aloof hdisplayed
    split
    · exact ⟨hshowing, hstage.pet⟩
    · exact ⟨hshowing.tamed.frame p.hmac hshowing.progress, hstage.pet⟩

theorem head_demoing (h : Demoing kept meals a) (hphase : a.phase = .head) (now : UInt64) :
    Demoing kept meals (a.head now) := by
  have hsettled : Settled kept a := by
    rcases h.stage with hstage | hstage | hstage
    · rcases hstage.phase with hp | hp <;> exact absurd (hphase.symm.trans hp) nofun
    · rcases hstage.phase with hp | hp <;> exact absurd (hphase.symm.trans hp) nofun
    · exact hstage
  have hview := hsettled.view
  have hnow : ({ a.view with now } : View).Showing kept :=
    ⟨⟨hview.tamed.demo, hview.tamed.recent, hview.tamed.alert, hview.tamed.actions, hview.tamed.details⟩,
      hview.carded, hview.progress⟩
  have hupdates := (View.updateTagWatch_quiet { a.view with now }).trans (View.updateDisplay_quiet _)
  have hticked := (hnow.aloof (.quiet hupdates)).aloof (.tickPet (hnow.aloof (.quiet hupdates)).tamed.demo)
  exact ⟨h.meals, .inr (.inr ⟨hticked, hsettled.pet⟩)⟩

/-- A step in the demo. -/
theorem step_demoing (h : Demoing kept meals a) (i : Input) : (a.stepIo p i).Meets Harmless
    fun b => Demoing kept meals b ∨ b.phase = .button ∧ Left kept meals b := by
  have hstays : ∀ {x : AppIo App}, x.Meets Harmless (Demoing kept meals) →
      x.Meets Harmless fun b => Demoing kept meals b ∨ b.phase = .button ∧ Left kept meals b := fun hx =>
    hx.mono (fun _ hm => hm) fun _ => .inl
  have hidle : (pure a : AppIo App).Meets Harmless (Demoing kept meals) := Logged.meets_pure h
  cases i with
  | head now =>
    refine hstays (Logged.meets_pure ?_)
    split
    · rename_i hphase
      exact head_demoing h hphase now
    · exact h
  | packet r =>
    unfold stepIo
    dsimp only
    rw [hear_demo h.demo, ite_self]
    exact hstays hidle
  | drained =>
    refine hstays (Logged.meets_pure ?_)
    split
    · rename_i hphase
      refine ⟨h.meals, ?_⟩
      rcases h.stage with hstage | hstage | hstage
      · rcases hstage.phase with hp | hp <;> exact absurd (hphase.symm.trans hp) nofun
      · rcases hstage.phase with hp | hp <;> exact absurd (hphase.symm.trans hp) nofun
      · exact .inr (.inr ⟨hstage.view, hstage.pet⟩)
    · exact h
  | touch t =>
    unfold stepIo
    dsimp only
    split
    · rename_i hphase
      exact touch_demoing h hphase t
    · exact hstays hidle
  | button pressed claimed =>
    unfold stepIo
    dsimp only
    split
    · rename_i hphase
      exact hstays (button_demoing h hphase pressed claimed)
    · exact hstays hidle
  | serve s =>
    unfold stepIo
    dsimp only
    split
    · rename_i hphase
      exact hstays (serve_demoing h hphase s)
    · exact hstays hidle
  | synthesize =>
    refine hstays (Logged.meets_pure ?_)
    split
    · rename_i hphase
      exact synthesize_demoing h hphase
    · exact h
  | rest r =>
    unfold stepIo
    dsimp only
    split
    · rename_i hphase
      exact hstays (rest_demoing h hphase r)
    · exact hstays hidle
  | taken =>
    exact hstays (Logged.meets_pure (h.apart ⟨.refl _, rfl, rfl, rfl⟩))

/-! ## Turning it on and off -/

theorem contact_cases (a : App) (t : Press) :
    (∃ b : App, contact p a t = pure b.switched ∧ b.view.demo = a.view.demo ∧ b.view.progress = a.view.progress ∧
      b.meals = a.meals) ∨ (contact p a t).value.view.demo = a.view.demo := by
  unfold contact
  dsimp only
  split
  · rcases press_cases (p := p) { a with
        view := { a.view with touchX := t.raw.1, touchY := t.raw.2 }, lastTouch := a.view.now } t with hswitched | hsame
    · exact .inl ⟨_, hswitched, rfl, rfl, rfl⟩
    · exact .inr hsame
  · exact .inr rfl

/-- The tap that turns the demo on. -/
theorem touch_entering (hoff : a.view.demo = false) (t : Option Press)
    (hon : (App.touch p a t).value.view.demo = true) :
    (App.touch p a t).Meets Harmless (Demoing a.view.progress a.meals) := by
  have hheld : ∀ b : App, (b.held t.isSome).view.demo = b.view.demo := fun b => (held_routine b t.isSome).demo
  unfold touch at hon ⊢
  cases t with
  | none => exact absurd (((hheld a).trans hoff).symm.trans hon) Bool.noConfusion
  | some t =>
    change (contact p a t >>= fun b => pure { b.held true with wasTouch := true, phase := .button }).Meets Harmless _
    change ((contact p a t).value.held true).view.demo = true at hon
    rcases contact_cases (p := p) a t with ⟨b, hswitched, hdemo, hprogress, hmeals⟩ | hsame
    · rw [hswitched, pure_bind]
      obtain ⟨hnot, hkept, hhome, hlit, hasked⟩ := b.switched_view
      have hentering : Entering a.view.progress { b.switched with phase := .button } := by
        refine ⟨.inl rfl, ?_, hkept.trans hprogress, ?_, hlit, hasked⟩
        · exact hnot.trans (congrArg not (hdemo.trans hoff))
        · change b.switched.view.screen ≠ _ ∧ b.switched.view.screen ≠ _
          rw [hhome]
          exact ⟨nofun, nofun⟩
      have hapart : Apart { b.switched with phase := .button }
          { b.switched.held true with wasTouch := true, phase := .button } := by
        have hroutine := held_routine b.switched true
        exact ⟨.quiet hroutine.view, hroutine.meals, hroutine.realPet, rfl⟩
      exact Logged.meets_pure ⟨hapart.meals.trans hmeals, .inl (hentering.apart hapart)⟩
    · exact absurd (((hheld _).trans (hsame.trans hoff)).symm.trans hon) Bool.noConfusion

/-- What the requests of the tap that turned the demo off wait for. -/
structure Steady (a b : App) : Prop where
  realPet : b.realPet = a.realPet
  demo : b.view.demo = a.view.demo

theorem Steady.refl (a : App) : Steady a a := ⟨rfl, rfl⟩

theorem Steady.trans (h : Steady a b) (h' : Steady b c) : Steady a c :=
  ⟨h'.realPet.trans h.realPet, h'.demo.trans h.demo⟩

theorem Steady.routine (h : Routine a b) : Steady a b := ⟨h.realPet, h.demo⟩

theorem Steady.routinely {x : AppIo App} (h : Routinely p a x) : Steady a x.value := .routine h.returned

theorem sendUnless_steady (a : App) (checking : Bool) (m : Message) : Steady a (sendUnless checking a m).value.2 := by
  unfold sendUnless
  split
  · exact .refl a
  · obtain ⟨queue, hr, -⟩ := (send_meets (a := a) (P := fun _ => True) (m := m) trivial).returned
    rw [hr]
    exact ⟨rfl, rfl⟩

theorem handlers_steady (s : Service) : ∀ r ∈ (handlers p s).dropLast, ∀ a : App, Steady a (r.2 a).value := by
  intro r hr a
  simp only [handlers, List.dropLast_cons_cons, List.dropLast_singleton, List.mem_cons, List.not_mem_nil, or_false] at hr
  rcases hr with rfl | rfl | rfl | rfl | rfl | rfl | rfl | rfl | rfl | rfl
  · exact .routine (calibrateRequested_routine a)
  · exact .routine (pauseRequested_routine a s.radio)
  · change Steady a (a.clearRequested s.checking).value
    unfold clearRequested
    split
    · exact .refl a
    · have hsent := sendUnless_steady a s.checking .Clear
      rw [Logged.value_bind]
      dsimp only [Logged.value_pure]
      split
      · exact hsent.trans ⟨rfl, rfl⟩
      · exact hsent
  · exact .routine (beginRadio_routine a s.radio)
  · exact .routinely (save_routinely (p := p) a false s.saved)
  · exact .routinely (save_routinely (p := p) a true s.backedUp)
  · change Steady a (a.exportRequested s.checking).value
    have hqueued : ∀ (b : App) (accepted : Bool), Steady b { b with view := b.view.exportQueued accepted } :=
      fun b accepted => ⟨rfl, View.eq_of_offCard View.demo (fun _ => rfl) (View.exportQueued_offCard b.view accepted)⟩
    unfold exportRequested
    split
    · exact hqueued a false
    · exact (sendUnless_steady a s.checking .Export).trans (hqueued _ _)
  · change Steady a (a.ejectRequested p s.ejectSaved).value
    have hqueued : ∀ (b : App) (accepted : Bool), Steady b { b with view := b.view.ejectQueued accepted } :=
      fun b accepted => ⟨rfl, View.eq_of_offCard View.demo (fun _ => rfl) (View.ejectQueued_offCard b.view accepted)⟩
    have hsends : ∀ b : App, Steady b (b.send .Eject).value.2 := fun b => sendUnless_steady b false .Eject
    unfold ejectRequested
    split
    · exact .refl a
    · exact ((Steady.routinely (save_routinely (p := p) a false s.ejectSaved)).trans (hsends _)).trans (hqueued _ _)
  · exact .routinely (diagnostics_routinely (p := p) a s.report)
  · have hreset : Steady a { a with view := a.view.resetProgress } := by
      refine ⟨rfl, ?_⟩
      unfold View.resetProgress View.resetScents View.setCollection View.setBook View.resetPet
      dsimp only
      repeat' split
      all_goals rfl
    exact hreset.trans (.routinely (save_routinely (p := p) { a with view := a.view.resetProgress } false s.resetSaved))

/-- Serving the request gives the pet of the real rounds back. -/
theorem serve_left (h : Left kept meals a) (s : Service) :
    (a.serve p s).value.view.pet = { kept.2.2.2 with decayMs := (a.serve p s).value.view.now } := by
  have hhandled : (handle a.view.requests (handlers p s).dropLast a.unasked).Meets (fun _ => True) (Steady a.unasked) := by
    refine Logged.Meets.foldlM_mem (fun b r hr hb => ?_) (.refl _)
    split
    · exact ⟨fun _ _ => trivial, hb.trans (handlers_steady s r hr b)⟩
    · exact Logged.meets_pure hb
  rw [serve_eq, Logged.value_bind, if_pos h.asked]
  have hsteady := hhandled.returned
  generalize (handle a.view.requests (handlers p s).dropLast a.unasked).value = b at hsteady
  have hoff : b.view.demo = false := hsteady.demo.trans h.demo
  have hpet : b.realPet = kept.2.2.2 := hsteady.realPet.trans h.pet
  have hradio := (beginRadio_routine b s.radio).demo.trans hoff
  change (b.demoRequested s.radio).view.pet = { kept.2.2.2 with decayMs := (b.demoRequested s.radio).view.now }
  have hnot : ¬ b.view.demo = true := by
    rw [hoff]
    exact Bool.false_ne_true
  have hnot' : ¬ (b.beginRadio s.radio).view.demo = true := by
    rw [hradio]
    exact Bool.false_ne_true
  unfold demoRequested View.switchDemo
  dsimp only
  rw [if_neg hnot, if_neg hnot, if_neg hnot', hpet]

/-- The requests are served in this step. -/
def Serves (a : App) : Input → Prop
  | .serve _ => a.phase = .serve
  | _ => False

theorem release_apart (a : App) (claimed : Bool) : Apart a (a.release p claimed).value := by
  unfold release
  split
  · have hmutes : Apart a { a with view := { a.view with settings.sound := .ofBool false } } :=
      .shown { Aloof.refl a.view with }
    exact hmutes.trans (.routine (save_routinely (p := p) _ false claimed).returned)
  · split
    · exact .shown (startCalibration_aloof a.view)
    · exact .shown (.quiet (next_quiet a.view))

/-- Until the request is served, what the tap left stays. -/
theorem step_left (h : (a.phase = .button ∨ a.phase = .serve) ∧ Left kept meals a) {i : Input} (hi : ¬ a.Serves i) :
    ((step p a i).phase = .button ∨ (step p a i).phase = .serve) ∧ Left kept meals (step p a i) := by
  have hphase : ∀ q : Phase, q ≠ .button → q ≠ .serve → a.phase ≠ q := by
    rintro q hbutton hserve rfl
    rcases h.1 with hp | hp
    · exact hbutton hp
    · exact hserve hp
  have hidle : ∀ {q : Phase}, i.turn = some q → a.phase ≠ q →
      ((step p a i).phase = .button ∨ (step p a i).phase = .serve) ∧ Left kept meals (step p a i) := by
    intro q hturn hq
    rw [step, stepIo_out_of_turn hturn hq]
    exact h
  cases i with
  | button pressed claimed =>
    by_cases hbutton : a.phase = .button
    · have hpushed : Apart a (a.push pressed) := .routine (push_routine a pressed)
      have hletGo : Apart (a.push pressed) ((a.push pressed).letGo p pressed claimed).value := by
        unfold letGo
        split
        · exact release_apart _ claimed
        · exact .refl _
      have hleft := h.2.apart (hpushed.trans hletGo)
      have hstep : step p a (.button pressed claimed) = (a.button p pressed claimed).value :=
        congrArg Logged.value (if_pos hbutton)
      rw [hstep]
      exact ⟨.inr rfl, hleft.demo, hleft.progress, hleft.meals, hleft.asked, hleft.pet⟩
    · exact hidle rfl hbutton
  | serve s => exact hidle rfl hi
  | taken => exact ⟨h.1, h.2.apart ⟨.refl _, rfl, rfl, rfl⟩⟩
  | head | packet | drained | touch | synthesize | rest =>
    exact hidle rfl (hphase _ Phase.noConfusion Phase.noConfusion)

/-! ## From the tap on to the tap off -/

/-- The scents, the ignored devices and the outfits, the look, the snooze and the meals. -/
def remembered (a : App) : Companion × Appearance × UInt64 × MealGuard :=
  (a.view.companion, a.view.appearance, a.view.snoozeUntil, a.meals)

theorem remembered_eq (h : b.view.progress = a.view.progress ∧ b.meals = a.meals) : b.remembered = a.remembered := by
  have hcompanion : b.view.companion = a.view.companion := congrArg (fun k : Progress => k.1) h.1
  have happearance : b.view.appearance = a.view.appearance := congrArg (fun k : Progress => k.2.1) h.1
  have hsnooze : b.view.snoozeUntil = a.view.snoozeUntil := congrArg (fun k : Progress => k.2.2.1) h.1
  unfold remembered
  rw [hcompanion, happearance, hsnooze, h.2]

/-- While the demo is on. -/
theorem run_demoing (h : Demoing kept meals a) {inputs : List Input}
    (hon : ∀ v ∈ Runs.visited (step p) a inputs, (step p v.1 v.2).view.demo = true) :
    Demoing kept meals (Runs.run (step p) a inputs) :=
  Runs.invariant_of_guard (Demoing kept meals) (fun b i => (step p b i).view.demo = true)
    (fun b i hdemo hb => by
      rcases (step_demoing (p := p) hb i).returned with hnext | ⟨-, hleft⟩
      · exact hnext
      · exact absurd (hleft.demo.symm.trans hdemo) Bool.false_ne_true) h hon

theorem touched_of_demo {t : Option Press} (h : (step p a (.touch t)).view.demo ≠ a.view.demo) :
    a.phase = .touch ∧ a.stepIo p (.touch t) = App.touch p a t := by
  by_cases hphase : a.phase = .touch
  · exact ⟨hphase, if_pos hphase⟩
  · refine absurd ?_ h
    change (if a.phase = .touch then App.touch p a t else pure a : AppIo App).value.view.demo = _
    rw [if_neg hphase]
    rfl

/-- From the tap that turns the demo on to the one that turns it off nothing of the real rounds
changes or is handed over, and serving the last tap's request gives the pet back. -/
theorem demo_leaves_progress (p : Platform) {a on last : App} {t : Option Press} {during : List Input}
    (hoff : a.view.demo = false) (hstart : on = step p a (.touch t)) (hon : on.view.demo = true)
    (hlast : last = Runs.run (step p) on during)
    (hduring : ∀ v ∈ Runs.visited (step p) on during, (step p v.1 v.2).view.demo = true) :
    (∀ m ∈ a.handed p (.touch t), Harmless m) ∧
      (∀ v ∈ Runs.visited (step p) on during,
        v.1.remembered = a.remembered ∧ ∀ m ∈ v.1.handed p v.2, Harmless m) ∧
      last.remembered = a.remembered ∧
      ∀ (t' : Option Press) (off : App), off = step p last (.touch t') → off.view.demo = false →
        (∀ m ∈ last.handed p (.touch t'), Harmless m) ∧ off.remembered = a.remembered ∧
        ∀ (after : List Input) (s : Service) (b : App),
          (∀ v ∈ Runs.visited (step p) off after, ¬ v.1.Serves v.2) →
          (Runs.run (step p) off after).phase = .serve →
          b = step p (Runs.run (step p) off after) (.serve s) →
          b.view.pet = { a.view.pet with decayMs := b.view.now } := by
  rw [hstart] at hon
  obtain ⟨-, hstep⟩ := touched_of_demo (fun heq => Bool.false_ne_true (hoff.symm.trans (heq.symm.trans hon)))
  have hentering : (a.stepIo p (.touch t)).Meets Harmless (Demoing a.view.progress a.meals) := by
    rw [hstep]
    refine touch_entering hoff t ?_
    rw [← hstep]
    exact hon
  have hbegun : Demoing a.view.progress a.meals on := by
    rw [hstart]
    exact hentering.returned
  have hvisited : ∀ v ∈ Runs.visited (step p) on during, Demoing a.view.progress a.meals v.1 := by
    intro v hv
    obtain ⟨earlier, later, hinputs, hrun⟩ := (Runs.mem_visited (step p)).mp hv
    rw [hrun]
    refine run_demoing hbegun fun w hw => hduring w ?_
    rw [hinputs, Runs.visited_append]
    exact List.mem_append_left _ hw
  have hgoes : Demoing a.view.progress a.meals last := by
    rw [hlast]
    exact run_demoing hbegun hduring
  refine ⟨hentering.logged, fun v hv => ?_, remembered_eq ⟨hgoes.progress, hgoes.meals⟩, fun t' off hoffs hleft => ?_⟩
  · have hv' := hvisited v hv
    exact ⟨remembered_eq ⟨hv'.progress, hv'.meals⟩, (step_demoing hv' v.2).logged⟩
  have hends := step_demoing (p := p) hgoes (.touch t')
  have hgone : off.phase = .button ∧ Left a.view.progress a.meals off := by
    rw [hoffs] at hleft ⊢
    rcases hends.returned with hnext | hgone
    · exact absurd (hleft.symm.trans hnext.demo) Bool.false_ne_true
    · exact hgone
  refine ⟨hends.logged, remembered_eq ⟨hgone.2.progress, hgone.2.meals⟩, fun after s b hpending hserves hb => ?_⟩
  have hpends := Runs.invariant_of_guard
    (fun c : App => (c.phase = .button ∨ c.phase = .serve) ∧ Left a.view.progress a.meals c)
    (fun c i => ¬ c.Serves i) (fun c i hi hc => step_left hc hi) ⟨.inl hgone.1, hgone.2⟩ hpending
  generalize Runs.run (step p) off after = c at hpends hserves hb
  have hserved : step p c (.serve s) = (c.serve p s).value := congrArg Logged.value (if_pos hserves)
  rw [hb, hserved]
  exact serve_left hpends.2 s

/-- At the page of the settings whose fourth row is the demo's. -/
def atSwitch : App :=
  Runs.run (step bare) (boot bare
    { settings := { onboarded := .ofBool true }, calibration := { valid := .ofBool true } } {}).value
    (taps 1000 toFourthPage ++ [.head 6000, .drained])

/-- The rest of the iteration, and taps that lead to the page again. -/
def demonstration : List Input :=
  (iteration 6000 none).drop 3 ++ iteration 6020 none ++
    taps 20000 toFourthPage ++ [.head 25000, .drained]

def backAtSwitch : App :=
  Runs.run (step bare) (step bare atSwitch (.touch (some (pressAt 100 180)))) demonstration

def switchedOff : App := step bare backAtSwitch (.touch (some (pressAt 100 180)))

theorem demonstration_leaves_progress : backAtSwitch.remembered = atSwitch.remembered ∧
    switchedOff.remembered = atSwitch.remembered ∧
    (step bare (Runs.run (step bare) switchedOff [.button false true]) (.serve {})).view.pet =
      { atSwitch.view.pet with decayMs := 25000 } := by
  obtain ⟨-, -, hback, hoff⟩ := @demo_leaves_progress bare atSwitch _ _ (some (pressAt 100 180)) demonstration
    (by decide +kernel) rfl (by decide +kernel) rfl (by decide +kernel)
  obtain ⟨-, hgone, hserved⟩ := hoff (some (pressAt 100 180)) switchedOff rfl (by decide +kernel)
  have hpending : ∀ v ∈ Runs.visited (step bare) switchedOff [.button false true], ¬ v.1.Serves v.2 := by
    intro v hv
    rw [List.mem_singleton.mp hv]
    exact id
  have hpet := hserved [.button false true] {} _ hpending (by decide +kernel) rfl
  have hnow : (step bare (Runs.run (step bare) switchedOff [.button false true]) (.serve {})).view.now = 25000 := by
    decide +kernel
  rw [hnow] at hpet
  exact ⟨hback, hgone, hpet⟩

end App

end Hound
