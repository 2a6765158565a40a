import Hound.Ui.Event
import Hound.Watch.Windows

/-!
# What an event does to the panel

An event changes many fields of the view, but of those that decide what the panel
shows and what a tap aims at only those of the alert window.
-/

namespace Hound

/-- What lights the panel, what is shown on it and what taps on it aim at. -/
structure Panel where
  now : UInt64
  settings : Settings
  identityKey : MealKey
  demo : Bool
  paused : Bool
  screen : Screen
  displayMode : DisplayMode
  lastActivity : UInt64
  saverSince : UInt64
  alertWakeUntil : UInt64
  saverPreview : Bool
  appearance : Appearance
  previewAppearance : Appearance
  exportStatus : ExportStatus
  ejectStatus : EjectStatus
  actionDetection : Detection
  framePresented : Bool
  homeAlertShown : Bool
  detailDetection : Detection
  detailValid : Bool

def View.panel (v : View) : Panel :=
  { now := v.now, settings := v.settings, identityKey := v.identityKey, demo := v.demo, paused := v.paused
    screen := v.screen, displayMode := v.displayMode, lastActivity := v.lastActivity
    saverSince := v.saverSince, alertWakeUntil := v.alertWakeUntil, saverPreview := v.saverPreview
    appearance := v.appearance, previewAppearance := v.previewAppearance
    exportStatus := v.exportStatus, ejectStatus := v.ejectStatus
    actionDetection := v.actionDetection, framePresented := v.framePresented
    homeAlertShown := v.homeAlertShown, detailDetection := v.detailDetection, detailValid := v.detailValid }

/-- What the panel is when a window opens. -/
def Panel.woken (p : Panel) : Panel :=
  { p with
    alertWakeUntil := p.now + 5000
    screen := if p.displayMode != .Active then .Home else p.screen
    saverPreview := false, displayMode := .Active }

namespace View

variable {hmac : Hmac}

/-! ## What an event leaves alone -/

@[simp] theorem panel_setBook (v : View) (demo : Bool) (c : Companion) :
    (v.setBook demo c).panel = v.panel := by
  unfold setBook panel
  split <;> rfl

@[simp] theorem panel_request (v : View) (r : UiRequest) : (v.request r).panel = v.panel := by
  unfold request panel
  rfl

@[simp] theorem panel_endOtherWatch (v : View) : v.endOtherWatch.panel = v.panel := by
  unfold endOtherWatch panel
  split <;> rfl

@[simp] theorem panel_dropStale (v : View) : v.dropStale.panel = v.panel := by
  unfold dropStale panel
  rfl

@[simp] theorem panel_reviewWarning (v : View) : v.reviewWarning.panel = v.panel := by
  unfold reviewWarning panel
  split
  · split <;> rfl
  · rfl

@[simp] theorem panel_updateTagWatch (v : View) : v.updateTagWatch.panel = v.panel := by
  unfold updateTagWatch
  rw [panel_reviewWarning, panel_dropStale, panel_endOtherWatch]

@[simp] theorem panel_watchTag (v : View) (d : Detection) : (v.watchTag hmac d).panel = v.panel := by
  unfold watchTag panel
  split <;> rfl

@[simp] theorem panel_earnPreview (v : View) (d : Detection) : (v.earnPreview d).panel = v.panel := by
  unfold earnPreview panel
  split <;> rfl

@[simp] theorem panel_announceOutfit (v : View) (unlocked : UInt8) :
    (v.announceOutfit unlocked).panel = v.panel := by
  unfold announceOutfit panel
  split <;> rfl

@[simp] theorem panel_saveScent (v : View) (d : Detection) (news : Bool) :
    (v.saveScent d news).panel = v.panel := by
  unfold saveScent panel
  split <;> rfl

@[simp] theorem panel_remember (v : View) (d : Detection) : (v.remember d).panel = v.panel := by
  unfold remember panel
  rfl

@[simp] theorem panel_learn (v : View) (d : Detection) : (v.learn d).panel = v.panel := by
  unfold learn observeScent unlockOutfits
  simp only [panel_remember, panel_saveScent, panel_announceOutfit, panel_setBook, panel_earnPreview]

@[simp] theorem panel_serveMeal (v : View) (d : Detection) : (v.serveMeal d).panel = v.panel := by
  unfold serveMeal panel
  dsimp only
  split
  · split <;> rfl
  · rfl

theorem windowHeld_congr {v w : View} (h : w.panel = v.panel) : w.windowHeld = v.windowHeld := by
  have hnow : w.now = v.now := congrArg Panel.now h
  have hwake : w.alertWakeUntil = v.alertWakeUntil := congrArg Panel.alertWakeUntil h
  unfold windowHeld
  rw [hnow, hwake]

theorem panel_wakeForAlert (v : View) :
    v.wakeForAlert.panel = if v.windowHeld then v.panel else v.panel.woken := by
  unfold wakeForAlert
  split
  · rfl
  · unfold panel Panel.woken
    rfl

/-- The panel is as it was, or the event opened a window. -/
theorem panel_event (hmac : Hmac) (v : View) (d : Detection) :
    (v.event hmac d).panel = v.panel ∨
      v.windowHeld = false ∧ (v.event hmac d).panel = v.panel.woken := by
  have hlearnt : ((v.updateTagWatch.watchTag hmac d).learn d).panel = v.panel := by
    rw [panel_learn, panel_watchTag, panel_updateTagWatch]
  unfold event
  split
  · exact .inl rfl
  · rw [panel_serveMeal]
    generalize (v.updateTagWatch.watchTag hmac d).learn d = u at hlearnt
    have hkept : ∀ x : View, x.panel = u.panel → x.panel = v.panel := fun x hx => hx.trans hlearnt
    unfold alert
    split
    · have halert : { u.wakeForAlert with alertDetection := d, alertUntil := u.now + 5000 }.panel =
          u.wakeForAlert.panel := by
        unfold panel
        rfl
      rw [halert, panel_wakeForAlert, windowHeld_congr hlearnt]
      cases v.windowHeld with
      | true => exact .inl (hkept u rfl)
      | false =>
        refine .inr ⟨rfl, ?_⟩
        rw [if_neg Bool.false_ne_true, hlearnt]
    · refine .inl (hkept _ ?_)
      unfold panel
      split <;> rfl

/-! ## An event never arms the watch -/

theorem tagWatch_learn (v : View) (d : Detection) : (v.learn d).tagWatch = v.tagWatch := by
  have hbook : ∀ (x : View) (b : Bool) (c : Companion), (x.setBook b c).tagWatch = x.tagWatch := by
    intro x b c
    unfold setBook
    split <;> rfl
  have hearn : ∀ x : View, (x.earnPreview d).tagWatch = x.tagWatch := by
    intro x
    unfold earnPreview
    split <;> rfl
  have hannounce : ∀ (x : View) (u : UInt8), (x.announceOutfit u).tagWatch = x.tagWatch := by
    intro x u
    unfold announceOutfit
    split <;> rfl
  have hsave : ∀ (x : View) (news : Bool), (x.saveScent d news).tagWatch = x.tagWatch := by
    intro x news
    unfold saveScent
    split <;> rfl
  unfold learn observeScent unlockOutfits
  refine (hsave _ _).trans ?_
  rw [hannounce, hbook, hearn, hbook]

theorem tagWatch_serveMeal (v : View) (d : Detection) : (v.serveMeal d).tagWatch = v.tagWatch := by
  unfold serveMeal
  dsimp only
  split
  · split <;> rfl
  · rfl

theorem tagWatch_alert (v : View) (d : Detection) : (v.alert hmac d).tagWatch = v.tagWatch := by
  unfold alert wakeForAlert
  split
  · split <;> rfl
  · split <;> rfl

theorem dropWatch_armed (v : View) (slots : List TagWatch.Slot) (w : TagWatch) :
    (slots.foldl v.dropWatch w).armed = w.armed := by
  induction slots generalizing w with
  | nil => rfl
  | cons i slots ih =>
    rw [List.foldl_cons, ih]
    unfold dropWatch
    dsimp only
    split
    · exact (TagWatch.drop_guards w i _).1
    · rfl

theorem updateTagWatch_armed {v : View} (h : v.updateTagWatch.tagWatch.armed = true) :
    v.tagWatch.armed = true := by
  have hreview : ∀ x : View, x.reviewWarning.tagWatch = x.tagWatch := by
    intro x
    unfold reviewWarning
    split
    · split <;> rfl
    · rfl
  unfold updateTagWatch at h
  rw [hreview] at h
  have hother := (dropWatch_armed v.endOtherWatch _ _).symm.trans h
  unfold endOtherWatch at hother
  split at hother
  · exact absurd hother Bool.false_ne_true
  · exact hother

theorem watchTag_armed (v : View) (d : Detection) :
    (v.watchTag hmac d).tagWatch.armed = v.tagWatch.armed := by
  have hsupersede : (v.supersede hmac d).armed = v.tagWatch.armed := by
    unfold supersede
    split
    · split
      · exact (TagWatch.drop_guards _ _ _).1
      · rfl
    · rfl
  unfold watchTag
  split
  · dsimp only
    split
    · rw [TagWatch.observe_armed, hsupersede]
    · split
      · rw [(TagWatch.drop_guards _ _ _).1, hsupersede]
      · exact hsupersede
  · rfl

theorem event_armed {v : View} {d : Detection} (h : (v.event hmac d).tagWatch.armed = true) :
    v.tagWatch.armed = true := by
  unfold event at h
  split at h
  · exact h
  · rw [tagWatch_serveMeal, tagWatch_alert, tagWatch_learn, watchTag_armed] at h
    exact updateTagWatch_armed h

end View

end Hound
